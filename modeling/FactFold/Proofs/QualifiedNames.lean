import FactFold.Proofs.Registry
import FactFold.Proofs.Script.Simulation
import FactFold.Unit

/-!
A member of an imported type can be named by the path of the type and the name of the member. Which type a path
stands for is decided by its last part alone: of the imported types of one simple name the last one counts.
-/

namespace FactFold

open Script

section

variable {path owner name : String}

theorem bne_of_plain {cs : List Char} (h : '.' ∉ cs) : ∀ c ∈ cs.reverse, (c != '.') = true := by
  intro c hc
  rw [bne_iff_ne]
  rintro rfl
  exact h (List.mem_reverse.1 hc)

theorem splitLast?_member (owner : String) (h : '.' ∉ name.toList) :
    splitLast? (owner ++ "." ++ name) = some (owner, name) := by
  have hback : (owner ++ "." ++ name).toList.reverse = name.toList.reverse ++ '.' :: owner.toList.reverse := by
    simp
  have hplain := bne_of_plain h
  unfold splitLast?
  dsimp only
  rw [hback, List.dropWhile_append_of_pos hplain, List.takeWhile_append_of_pos hplain]
  simp

theorem splitLast?_plain (h : '.' ∉ path.toList) : splitLast? path = none := by
  have hnil : path.toList.reverse.dropWhile (· != '.') = [] :=
    List.dropWhile_eq_nil_iff.2 (bne_of_plain h)
  unfold splitLast?
  dsimp only
  rw [hnil]

theorem exists_member (h : '.' ∈ path.toList) : ∃ owner name, path = owner ++ "." ++ name ∧ '.' ∉ name.toList := by
  obtain ⟨name, owner, hpath, hname⟩ := List.eq_append_cons_of_mem (List.mem_reverse.2 h)
  refine ⟨String.ofList owner.reverse, String.ofList name.reverse, ?_, by simpa using hname⟩
  apply String.toList_inj.1
  rw [← List.reverse_reverse path.toList, hpath]
  simp

theorem splitLast?_eq_some (h : splitLast? path = some (owner, name)) :
    path = owner ++ "." ++ name ∧ '.' ∉ name.toList := by
  by_cases hdot : '.' ∈ path.toList
  · obtain ⟨owner', name', rfl, hname⟩ := exists_member hdot
    rw [splitLast?_member owner' hname] at h
    cases h
    exact ⟨rfl, hname⟩
  · rw [splitLast?_plain hdot] at h
    cases h

theorem simpleName_plain (h : '.' ∉ path.toList) : simpleName path = path := by
  rw [simpleName, splitLast?_plain h]

theorem simpleName_member (owner : String) (h : '.' ∉ name.toList) : simpleName (owner ++ "." ++ name) = name := by
  rw [simpleName, splitLast?_member owner h]

theorem simpleName_notMem (path : String) : '.' ∉ (simpleName path).toList := by
  by_cases hdot : '.' ∈ path.toList
  · obtain ⟨owner, name, rfl, hname⟩ := exists_member hdot
    rwa [simpleName_member owner hname]
  · rwa [simpleName_plain hdot]

end

namespace Imports

variable {α : Type} {r : Registry} {found types : Entries String (String × ValueType)} {names : List String}
  {i : Imports}

def Shown (names : List String) (T : String) : Prop :=
  ∃ before after, names = before ++ T :: after ∧ ∀ other ∈ after, simpleName other ≠ simpleName T

theorem exists_shown {T : String} (h : T ∈ names) : ∃ Q, Shown names Q ∧ simpleName Q = simpleName T := by
  induction names using List.reverseRecOn with
  | nil => cases h
  | append_singleton front last ih =>
    by_cases hlast : simpleName last = simpleName T
    · exact ⟨last, ⟨front, [], by simp, by simp⟩, hlast⟩
    · have hfront : T ∈ front := by
        rcases List.mem_append.1 h with hfront | hmem
        · exact hfront
        · rw [List.mem_singleton] at hmem
          exact absurd (hmem ▸ rfl) hlast
      obtain ⟨Q, ⟨before, after, rfl, hafter⟩, hQ⟩ := ih hfront
      refine ⟨Q, ⟨before, after ++ [last], by simp, fun other hother => ?_⟩, hQ⟩
      rcases List.mem_append.1 hother with hother | hother
      · exact hafter other hother
      · rw [List.mem_singleton.1 hother, hQ]
        exact hlast

theorem Shown.eq {Q Q' : String} (h : Shown names Q) (h' : Shown names Q') (hname : simpleName Q = simpleName Q') :
    Q = Q' := by
  obtain ⟨before, after, rfl, hafter⟩ := h
  obtain ⟨before', after', heq, hafter'⟩ := h'
  rcases List.append_eq_append_iff.1 heq with ⟨middle, -, hrest⟩ | ⟨middle, -, hrest⟩
  · cases middle with
    | nil => exact (List.cons.inj hrest).1
    | cons first middle =>
      obtain ⟨rfl, rfl⟩ := List.cons.inj hrest
      exact absurd hname.symm (hafter Q' (by simp))
  · cases middle with
    | nil => exact (List.cons.inj hrest).1.symm
    | cons first middle =>
      obtain ⟨rfl, rfl⟩ := List.cons.inj hrest
      exact absurd hname (hafter' Q (by simp))

theorem findTypes_append {before after : List String} (h : findTypes r (before ++ after) found = .ok types) :
    ∃ middle, findTypes r after middle = .ok types := by
  induction before generalizing found with
  | nil => exact ⟨found, h⟩
  | cons name rest ih =>
    rw [List.cons_append, findTypes] at h
    split at h
    · exact ih h
    · cases h

theorem findTypes_other {simple : String} (h : findTypes r names found = .ok types)
    (hnames : ∀ name ∈ names, simpleName name ≠ simple) : types.get? simple = found.get? simple := by
  induction names generalizing found with
  | nil =>
    cases h
    rfl
  | cons name rest ih =>
    rw [findTypes] at h
    split at h
    · rw [ih h fun other hother => hnames other (List.mem_cons_of_mem _ hother), Entries.get?_put,
        if_neg (hnames name List.mem_cons_self).symm]
    · cases h

theorem findTypes_shown {T : String} (h : findTypes r names found = .ok types) (hT : Shown names T) :
    ∃ type, types.get? (simpleName T) = some (T, type) := by
  obtain ⟨before, after, rfl, hafter⟩ := hT
  obtain ⟨middle, h⟩ := findTypes_append h
  rw [findTypes] at h
  split at h
  · next type _ =>
    refine ⟨type, ?_⟩
    rw [findTypes_other h hafter, Entries.get?_put, if_pos rfl]
  · cases h

structure Keyed (types : Entries String (String × ValueType)) : Prop where
  nodup : (types.map Prod.fst).Nodup
  simple : ∀ entry ∈ types, entry.1 = simpleName entry.2.1

theorem findTypes_keyed (hfound : Keyed found) (h : findTypes r names found = .ok types) : Keyed types := by
  induction names generalizing found with
  | nil =>
    cases h
    exact hfound
  | cons name rest ih =>
    rw [findTypes] at h
    split at h
    · refine ih ⟨Entries.nodup_put hfound.nodup _ _, fun entry hentry => ?_⟩ h
      rcases Entries.mem_put hentry with rfl | hentry
      · rfl
      · exact hfound.simple entry hentry
    · cases h

section

variable {p : Plan} {T Q : String}

theorem ofPlan_parts (h : ofPlan p r = .ok i) : findTypes r p.importedTypes [] = .ok i.types ∧
    findMembers r.method? p.importedMethods [] = .ok i.methods ∧
    findMembers r.field? p.importedFields [] = .ok i.fields := by
  obtain ⟨types, htypes, h⟩ := bind_eq_ok.1 h
  obtain ⟨methods, hmethods, h⟩ := bind_eq_ok.1 h
  obtain ⟨fields, hfields, h⟩ := bind_eq_ok.1 h
  cases h
  exact ⟨htypes, hmethods, hfields⟩

theorem ofPlan_keyed (h : ofPlan p r = .ok i) : Keyed i.types :=
  findTypes_keyed ⟨by simp, by simp⟩ (ofPlan_parts h).1

theorem owner?_dotted (h : Keyed i.types) (hT : '.' ∈ T.toList) :
    i.owner? T = (i.types.map fun (_, qualified, _) => qualified).find? (· == T) := by
  have hnone : i.types.get? T = none := by
    rw [Entries.get?_eq_none_iff]
    intro hmem
    obtain ⟨entry, hentry, rfl⟩ := List.mem_map.1 hmem
    rw [h.simple entry hentry] at hT
    exact simpleName_notMem _ hT
  simp [owner?, hnone]

theorem owner?_eq (h : ofPlan p r = .ok i) (hQ : Shown p.importedTypes Q) (hname : simpleName Q = simpleName T) :
    i.owner? T = if Q = T ∨ '.' ∉ T.toList then some Q else none := by
  obtain ⟨type, hget⟩ := findTypes_shown (ofPlan_parts h).1 hQ
  have hkeyed := ofPlan_keyed h
  by_cases hdot : '.' ∈ T.toList
  · rw [owner?_dotted hkeyed hdot]
    have hmem : ∀ entry ∈ i.types, entry.2.1 = T → Q = T := by
      intro entry hentry hT
      have hfound := Entries.get?_eq_some_of_mem hkeyed.nodup hentry
      rw [hkeyed.simple entry hentry, hT, ← hname, hget] at hfound
      rw [← hT, ← Option.some.inj hfound]
    split
    · next hcase =>
      obtain rfl := hcase.resolve_right (not_not.2 hdot)
      cases hfind : (i.types.map fun (_, qualified, _) => qualified).find? (· == Q) with
      | none =>
        have hQmem := List.mem_map_of_mem (f := fun entry => entry.2.1) (Entries.mem_of_get? hget)
        exact absurd (beq_self_eq_true Q) (List.find?_eq_none.1 hfind Q hQmem)
      | some other =>
        have hsame : (other == Q) = true := List.find?_some (p := (· == Q)) hfind
        rw [eq_of_beq hsame]
    · next hcase =>
      rw [List.find?_eq_none]
      intro qualified hqualified hsame
      obtain ⟨entry, hentry, rfl⟩ := List.mem_map.1 hqualified
      exact hcase (.inl (hmem entry hentry (eq_of_beq hsame)))
  · rw [if_pos (.inr hdot), owner?]
    rw [hname, simpleName_plain hdot] at hget
    rw [hget]
    rfl

end

section

variable {find : String → String → Option α} {imported before : Entries String α} {paths : List String}
  {owner name : String}

theorem findMembers_cons {path : String} (h : findMembers find (path :: paths) before = .ok imported) :
    ∃ owner name a, path = owner ++ "." ++ name ∧ '.' ∉ name.toList ∧ find owner name = some a ∧
      findMembers find paths ((before.put name a).put path a) = .ok imported := by
  unfold findMembers at h
  cases hs : splitLast? path with
  | none => simp [hs] at h
  | some member =>
    obtain ⟨hpath, hplain⟩ := splitLast?_eq_some hs
    cases ha : find member.1 member.2 with
    | none => simp [hs, ha] at h
    | some a =>
      simp only [hs, ha] at h
      exact ⟨member.1, member.2, a, hpath, hplain, ha, h⟩

theorem member_inj {owner' name' : String} (hname : '.' ∉ name.toList) (hname' : '.' ∉ name'.toList)
    (h : owner ++ "." ++ name = owner' ++ "." ++ name') : owner = owner' ∧ name = name' := by
  have hcut := splitLast?_member owner hname
  rw [h, splitLast?_member owner' hname'] at hcut
  cases hcut
  exact ⟨rfl, rfl⟩

theorem findMembers_get? (h : findMembers find paths before = .ok imported) (hname : '.' ∉ name.toList) :
    imported.get? (owner ++ "." ++ name) =
      if owner ++ "." ++ name ∈ paths then find owner name else before.get? (owner ++ "." ++ name) := by
  induction paths generalizing before with
  | nil =>
    cases h
    simp
  | cons path rest ih =>
    obtain ⟨owner', name', a, rfl, hname', ha, h⟩ := findMembers_cons h
    have hsimple : owner ++ "." ++ name ≠ name' := fun he => hname' (he ▸ by simp)
    rw [ih h, Entries.get?_put, Entries.get?_put, if_neg hsimple]
    by_cases he : owner ++ "." ++ name = owner' ++ "." ++ name'
    · obtain ⟨rfl, rfl⟩ := member_inj hname hname' he
      simp [ha]
    · simp [he]

theorem findMembers_some (h : findMembers find paths before = .ok imported) (hname : '.' ∉ name.toList)
    (hpath : owner ++ "." ++ name ∈ paths) : ∃ a, find owner name = some a := by
  induction paths generalizing before with
  | nil => cases hpath
  | cons path rest ih =>
    obtain ⟨owner', name', a, rfl, hname', ha, h⟩ := findMembers_cons h
    rcases List.mem_cons.1 hpath with he | hrest
    · obtain ⟨rfl, rfl⟩ := member_inj hname hname' he
      exact ⟨a, ha⟩
    · exact ih h hrest

variable {p : Plan} {r : Registry} {i : Imports} {T Q : String}

theorem member?_eq (h : ofPlan p r = .ok i) (hQ : Shown p.importedTypes Q) (hT : simpleName Q = simpleName T)
    (himported : findMembers find paths [] = .ok imported) (hname : '.' ∉ name.toList) :
    i.member? imported find (T ++ "." ++ name) =
      if Q = T ∨ T ++ "." ++ name ∈ paths then find T name
      else if '.' ∈ T.toList then none else find Q name := by
  have hnone : Entries.get? ([] : Entries String α) (T ++ "." ++ name) = none := rfl
  have hmember : i.member? imported find (T ++ "." ++ name) =
      ((if T ++ "." ++ name ∈ paths then find T name else none) <|>
        (i.owner? T).bind fun owner => find owner name) := by
    rw [member?, findMembers_get? himported hname, splitLast?_member T hname, hnone]
    rfl
  rw [hmember, owner?_eq h hQ hT]
  by_cases hpath : T ++ "." ++ name ∈ paths
  · obtain ⟨a, ha⟩ := findMembers_some himported hname hpath
    simp [hpath, ha]
  · by_cases hsame : Q = T
    · subst hsame
      simp [hpath]
    · by_cases hdot : '.' ∈ T.toList <;> simp [hpath, hsame, hdot]

end

end Imports

namespace Script.Compiler

variable {c : Compiler} {path : String}

def CallsNative (c : Compiler) (path : String) (native : Native) : Prop :=
  ∀ args span d, Linked c d.functions d.natives →
    match c.expr (.call path args span) d with
    | .ok (code, d') => ∃ first d₁ i, c.arguments args d = .ok (first, d₁) ∧
        code = first ++ [.call i (UInt8.ofNat args.length)] ∧ d'.functions[i.toNat]? = some path ∧
        d'.natives[i.toNat]? = some native
    | .error e => c.arguments args d = .error e ∨ ∃ limit, e = .tooLarge limit

theorem addFunction_error {native : Native} {d : Draft} {e : ScriptError} (h : addFunction path native d = .error e) :
    ∃ limit, e = .tooLarge limit := by
  have hadd := map_eq_error.1 h
  unfold Draft.add at hadd
  split at hadd
  · cases hadd
  · cases hadd
    exact ⟨_, rfl⟩

theorem callsNative {native : Native} (hf : c.symbols.function path = some native) : c.CallsNative path native := by
  intro args span d hd
  cases h : c.expr (.call path args span) d with
  | ok result =>
    obtain ⟨code, d'⟩ := result
    simp only [expr, hf] at h
    split at h
    · obtain ⟨⟨first, d₁⟩, h₁, h⟩ := bind_eq_ok.1 h
      obtain ⟨⟨i, d₂⟩, h₂, h⟩ := bind_eq_ok.1 h
      obtain ⟨rfl, rfl⟩ := Prod.mk.inj (Except.ok.inj h)
      have hadded := addFunction_added hf h₂
      have hname := hadded.holds _ (Tables.Le.refl _)
      have hlinked := hadded.linked ((arguments_added h₁).linked hd)
      exact ⟨first, d₁, i, h₁, rfl, hname, hlinked.native hname hf⟩
    · cases h
  | error e =>
    simp only [expr, hf] at h
    split at h
    · rcases bind_eq_error.1 h with h₁ | ⟨⟨first, d₁⟩, h₁, h⟩
      · exact .inl h₁
      · rcases bind_eq_error.1 h with h₂ | ⟨⟨i, d₂⟩, h₂, h⟩
        · exact .inr (addFunction_error h₂)
        · cases h
    · cases h
      exact .inr ⟨_, rfl⟩

theorem constantPath?_field {object : Expr} {root name owner : String} {d : Draft} (howner : object.path? = some owner)
    (hroot : object.root? = some root) (hinput : c.symbols.input root = none) (hdeclared : root ∉ d.declared)
    (span : Span) : c.constantPath? d (.field object name span) = c.symbols.constant (owner ++ "." ++ name) := by
  rw [constantPath?_eq, pathConstant?]
  simp [Expr.root?, Expr.path?, howner, hroot, hinput, hdeclared]

theorem expr_unknownFunction (hf : c.symbols.function path = none) (args : List Expr) (span : Span) (d : Draft) :
    c.expr (.call path args span) d = .error (.unknownFunction path span) := by
  rw [expr, hf]

end Script.Compiler

/-- The member that is found under the path of an imported type `T`, by its own path if it was imported so, and else
by the path of the type. The last imported type of the same simple name is `Q`. -/
def Imports.found {α : Type} (find : String → String → Option α) (paths : List String) (Q T name : String) :
    Option α :=
  if Q = T ∨ T ++ "." ++ name ∈ paths then find T name
  else if '.' ∈ T.toList then none
  else find Q name

/-- A type keeps its members under its qualified name if no type of the same simple name is imported behind it. The
last one `Q` hides the others: of their members those remain that were imported by their own paths, and a path without
a point in it means the members of `Q`. -/
theorem qualified_members {p : Plan} {r : Registry} {i : Imports} (h : Imports.ofPlan p r = .ok i)
    (inputs : Entries String ValueType) (strict : Bool) {T : String} (hT : T ∈ p.importedTypes) :
    let c : Compiler := ⟨unitSymbols r i inputs, strict⟩
    ∃ Q, Imports.Shown p.importedTypes Q ∧ simpleName Q = simpleName T ∧ ∀ name, '.' ∉ name.toList →
      (∀ native, Imports.found r.method? p.importedMethods Q T name = some native →
        c.CallsNative (T ++ "." ++ name) native) ∧
      (Imports.found r.method? p.importedMethods Q T name = none → ∀ args span d,
        c.expr (.call (T ++ "." ++ name) args span) d = .error (.unknownFunction (T ++ "." ++ name) span)) ∧
      ∀ object root d, object.path? = some T → object.root? = some root → inputs.get? root = none →
        root ∉ d.declared → ∀ span,
          c.constantPath? d (.field object name span) = Imports.found r.field? p.importedFields Q T name ∧
          ∀ v, Imports.found r.field? p.importedFields Q T name = some v →
            c.expr (.field object name span) d = d.literal v := by
  intro c
  obtain ⟨Q, hQ, hsimple⟩ := Imports.exists_shown hT
  refine ⟨Q, hQ, hsimple, fun name hname => ?_⟩
  have hmethod : c.symbols.function (T ++ "." ++ name) = Imports.found r.method? p.importedMethods Q T name :=
    Imports.member?_eq h hQ hsimple (Imports.ofPlan_parts h).2.1 hname
  have hfield : c.symbols.constant (T ++ "." ++ name) = Imports.found r.field? p.importedFields Q T name :=
    Imports.member?_eq h hQ hsimple (Imports.ofPlan_parts h).2.2 hname
  refine ⟨fun native hnative => Compiler.callsNative (hmethod.trans hnative),
    fun hnone => Compiler.expr_unknownFunction (hmethod.trans hnone), ?_⟩
  intro object root d hpath hroot hinput hdeclared span
  have hsymbol : c.symbols.input root = none := by
    simp [c, unitSymbols, hinput]
  have hconstant : c.constantPath? d (.field object name span) = c.symbols.constant (T ++ "." ++ name) :=
    Compiler.constantPath?_field hpath hroot hsymbol hdeclared span
  rw [hfield] at hconstant
  refine ⟨hconstant, fun v hv => ?_⟩
  rw [Compiler.expr, hconstant, hv]

def twoMaths : Registry where
  types := [("a.Math", .record "A"), ("b.Math", .record "B")]
  methods := [("a.Math.f", Registry.abs), ("b.Math.f", Registry.max)]
  fields := []

def bothMaths : Plan where
  name := "u"
  expression := "a.Math.f(1)"
  importedTypes := ["a.Math", "b.Math"]

theorem qualified_members_maths : ∃ i, Imports.ofPlan bothMaths twoMaths = .ok i ∧
    Compiler.CallsNative ⟨unitSymbols twoMaths i [], false⟩ "b.Math.f" Registry.max := by
  obtain ⟨i, hi⟩ : ∃ i, Imports.ofPlan bothMaths twoMaths = .ok i := ⟨_, rfl⟩
  obtain ⟨Q, hQ, hname, hmembers⟩ := qualified_members hi [] false (T := "b.Math") (by decide)
  obtain rfl : Q = "b.Math" := hQ.eq ⟨["a.Math"], [], rfl, by simp⟩ hname
  exact ⟨i, hi, (hmembers "f" (by decide)).1 Registry.max rfl⟩

theorem hidden_member_unknown :
    "a.Math" ∈ bothMaths.importedTypes ∧ (twoMaths.method? "a.Math" "f").isSome = true ∧
      ((Imports.ofPlan bothMaths twoMaths).map fun _ => ()) = .ok () ∧
      ((bothMaths.compile {} twoMaths).map fun _ => ()) =
        .error ⟨"u", "a.Math.f", .script (.unknownFunction "a.Math.f" ⟨0, 11⟩)⟩ := by
  refine ⟨by decide, rfl, rfl, ?_⟩
  cbv

end FactFold
