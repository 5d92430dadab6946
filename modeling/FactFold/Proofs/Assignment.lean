import FactFold.Proofs.Scope

namespace FactFold

structure FirstHeld (name : String) (scopes front : List Scope) (scope : Scope) (back : List Scope) : Prop where
  split : scopes = front ++ scope :: back
  passed : ∀ s ∈ front, s.has name = false
  held : scope.has name = true

section

variable {name : String} {v : Value} {scopes front back : List Scope} {scope : Scope}

theorem FirstHeld.cons (h : FirstHeld name scopes front scope back) {s : Scope} (hs : s.has name = false) :
    FirstHeld name (s :: scopes) (s :: front) scope back :=
  ⟨by rw [h.split, List.cons_append], List.forall_mem_cons.2 ⟨hs, h.passed⟩, h.held⟩

theorem FirstHeld.mem (h : FirstHeld name scopes front scope back) : ∃ s ∈ scopes, s.has name = true :=
  ⟨scope, by simp [h.split], h.held⟩

namespace ScopeChain

theorem assignIn_cases (name : String) (v : Value) (scopes : List Scope) :
    (∃ front scope back, FirstHeld name scopes front scope back ∧
      assignIn name v scopes = .ok (front ++ scope.put name v :: back)) ∨
      (∀ s ∈ scopes, s.has name = false) ∧ assignIn name v scopes = .error v := by
  induction scopes with
  | nil => exact .inr ⟨by simp, rfl⟩
  | cons s scopes ih =>
    unfold assignIn
    cases hs : s.has name with
    | true => exact .inl ⟨[], s, scopes, ⟨rfl, by simp, hs⟩, rfl⟩
    | false =>
      rcases ih with ⟨front, scope, back, hfirst, hok⟩ | ⟨hnone, herror⟩
      · exact .inl ⟨s :: front, scope, back, hfirst.cons hs, by rw [hok]; rfl⟩
      · exact .inr ⟨List.forall_mem_cons.2 ⟨hs, hnone⟩, by rw [herror]; rfl⟩

theorem assignIn_scopes (c : ScopeChain) (name : String) (v : Value) :
    assignIn name v c.scopes = (c.assign name v).map ScopeChain.scopes := by
  unfold assign assignHead
  rw [ScopeChain.scopes, assignIn]
  cases c.head.has name with
  | true => rfl
  | false =>
    simp only [Bool.false_eq_true, if_false]
    cases assignIn name v c.rest <;> rfl

theorem assign_package {c c' : ScopeChain} (h : c.assign name v = .ok c') : c'.package = c.package := by
  unfold assign at h
  split at h
  · next hhead =>
    cases h
    unfold assignHead at hhead
    split at hhead
    · cases hhead
      rfl
    · cases hhead
  · obtain ⟨rest, -, rfl⟩ := map_eq_ok.1 h
    rfl

theorem assign_cases (c : ScopeChain) (name : String) (v : Value) :
    (∃ front scope back c', FirstHeld name c.scopes front scope back ∧ c.assign name v = .ok c' ∧
      c'.scopes = front ++ scope.put name v :: back ∧ c'.package = c.package) ∨
      (∀ s ∈ c.scopes, s.has name = false) ∧ c.assign name v = .error v := by
  have hscopes := c.assignIn_scopes name v
  rcases assignIn_cases name v c.scopes with ⟨front, scope, back, hfirst, hok⟩ | ⟨hnone, herror⟩
  · rw [hok] at hscopes
    obtain ⟨c', hc', hscopes⟩ := map_eq_ok.1 hscopes.symm
    exact .inl ⟨front, scope, back, c', hfirst, hc', hscopes, assign_package hc'⟩
  · rw [herror] at hscopes
    exact .inr ⟨hnone, map_eq_error.1 hscopes.symm⟩

end ScopeChain

end

inductive Link where
  | scope (vars : Scope)
  | package (package : Package)

namespace Link

def local? : Link → String → Option Value
  | scope vars, name => vars.get? name
  | package p, name => p.values.get? name

def overwrite : Link → String → Value → Except Value Unit × Link
  | scope vars, name, v =>
    if vars.has name then (.ok (), scope (vars.put name v)) else (.error v, scope vars)
  | package p, _, v => (.error v, package p)

def resolve? (name : String) : List Link → Option Value
  | [] => none
  | link :: rest => link.local? name <|> resolve? name rest

def assign (name : String) : Value → List Link → Except Value Unit × List Link
  | v, [] => (.error v, [])
  | v, link :: rest =>
    match link.overwrite name v with
    | (.ok _, link) => (.ok (), link :: rest)
    | (.error v, link) =>
      let (answer, rest) := assign name v rest
      (answer, link :: rest)

def chain (scopes : List Scope) (package : Option Package) : List Link :=
  scopes.map scope ++ package.toList.map Link.package

theorem resolve?_chain (name : String) (scopes : List Scope) (p : Option Package) :
    resolve? name (chain scopes p) = (scopes.findSome? (·.get? name) <|> p.bind (·.values.get? name)) := by
  induction scopes with
  | nil => cases p <;> simp [chain, resolve?, local?]
  | cons s scopes ih =>
    rw [List.findSome?_cons]
    change (s.get? name <|> resolve? name (chain scopes p)) = _
    rw [ih]
    cases s.get? name <;> rfl

theorem assign_chain (name : String) (v : Value) (scopes : List Scope) (p : Option Package) :
    assign name v (chain scopes p) =
      match ScopeChain.assignIn name v scopes with
      | .ok scopes' => (.ok (), chain scopes' p)
      | .error w => (.error w, chain scopes p) := by
  induction scopes with
  | nil => cases p <;> rfl
  | cons s scopes ih =>
    have hchain : chain (s :: scopes) p = scope s :: chain scopes p := rfl
    rw [hchain, assign, overwrite, ScopeChain.assignIn]
    cases s.has name with
    | true => rfl
    | false =>
      simp only [Bool.false_eq_true, if_false, ih]
      cases ScopeChain.assignIn name v scopes <;> rfl

end Link

namespace ScopeChain

def links (c : ScopeChain) : List Link :=
  Link.chain c.scopes c.package

theorem assign_links (c : ScopeChain) (name : String) (v : Value) :
    Link.assign name v c.links =
      match c.assign name v with
      | .ok c' => (.ok (), c'.links)
      | .error w => (.error w, c.links) := by
  unfold links
  rw [Link.assign_chain, assignIn_scopes]
  cases hc : c.assign name v with
  | ok c' =>
    dsimp only [Except.map]
    rw [assign_package hc]
  | error w => rfl

theorem assignment_resolved (c : ScopeChain) (name : String) (v : Value) :
    ((∃ c', c.assign name v = .ok c') ↔ ∃ scope ∈ c.scopes, scope.has name = true) ∧
      (∀ c', c.assign name v = .ok c' →
        c'.resolve? name = some v ∧ (∀ other, other ≠ name → c'.resolve? other = c.resolve? other) ∧
          ∃ front scope back, FirstHeld name c.scopes front scope back ∧
            c'.scopes = front ++ scope.put name v :: back ∧ c'.package = c.package) ∧
      (∀ w, c.assign name v = .error w → w = v) ∧
      (∀ other, Link.resolve? other c.links = c.resolve? other) ∧
      (Link.assign name v c.links =
        match c.assign name v with
        | .ok c' => (.ok (), c'.links)
        | .error w => (.error w, c.links)) ∧
      ∀ package, Link.assign name v (Link.chain [] package) = (.error v, Link.chain [] package) := by
  refine ⟨?_, fun c' hc' => ?_, fun w hw => ?_, fun other => Link.resolve?_chain other c.scopes c.package,
    c.assign_links name v, fun package => Link.assign_chain name v [] package⟩
  · rcases c.assign_cases name v with ⟨front, scope, back, c', hfirst, hc', -⟩ | ⟨hnone, herror⟩
    · exact iff_of_true ⟨c', hc'⟩ hfirst.mem
    · refine iff_of_false ?_ ?_
      · rintro ⟨c', hc'⟩
        rw [herror] at hc'
        cases hc'
      · rintro ⟨s, hs, hhas⟩
        rw [hnone s hs] at hhas
        cases hhas
  · rcases c.assign_cases name v with ⟨front, scope, back, c'', hfirst, hc'', hscopes, hpackage⟩ | ⟨-, herror⟩
    · obtain rfl : c'' = c' := Except.ok.inj (hc''.symm.trans hc')
      refine ⟨?_, fun other hother => ?_, front, scope, back, hfirst, hscopes, hpackage⟩
      · rw [resolve?_assign hc', if_pos rfl]
      · rw [resolve?_assign hc', if_neg hother]
    · rw [herror] at hc'
      cases hc'
  · rcases c.assign_cases name v with ⟨_, _, _, c', -, hc', -⟩ | ⟨-, herror⟩
    · rw [hc'] at hw
      cases hw
    · rw [herror] at hw
      exact (Except.error.inj hw).symm

def shopChain : ScopeChain where
  head := [("note", .int 1)]
  rest := [[("total", .int 2)], [("total", .int 3)]]
  package := some ⟨"shop", [("total", .int 9), ("currency", .text "EUR")]⟩

theorem assignment_resolved_shop :
    (∃ c', shopChain.assign "total" (.int 7) = .ok c' ∧ c'.resolve? "total" = some (.int 7) ∧
      c'.resolve? "currency" = some (.text "EUR")) ∧
      ∃ w, shopChain.assign "currency" (.text "USD") = .error w ∧ w = .text "USD" := by
  obtain ⟨hworks, hassigned, -⟩ := assignment_resolved shopChain "total" (.int 7)
  obtain ⟨c', hc'⟩ := hworks.2 ⟨[("total", .int 2)], by simp [shopChain, scopes], rfl⟩
  obtain ⟨htotal, hothers, -⟩ := hassigned c' hc'
  obtain ⟨-, -, hback, -⟩ := assignment_resolved shopChain "currency" (.text "USD")
  exact ⟨⟨c', hc', htotal, hothers "currency" (by decide)⟩, _, rfl, hback _ rfl⟩

end ScopeChain

end FactFold
