import FactFold.Proofs.Results
import FactFold.Scope

namespace FactFold.ScopeChain

variable {c c' : ScopeChain} {name other : String} {v : Value}

theorem resolve?_eq (c : ScopeChain) (name : String) :
    c.resolve? name = (c.head.get? name <|> c.rest.findSome? (·.get? name) <|>
      c.package.bind (·.values.get? name)) := by
  simp only [resolve?, scopes, List.findSome?_cons]
  cases c.head.get? name <;> rfl

theorem resolve?_define (c : ScopeChain) (name other : String) (v : Value) :
    (c.define name v).resolve? other = if other = name then some v else c.resolve? other := by
  rw [resolve?_eq, resolve?_eq, define, Entries.get?_put]
  by_cases h : other = name
  · rw [if_pos h, if_pos h]
    rfl
  · rw [if_neg h, if_neg h]

theorem assignIn_eq_ok {scopes scopes' : List Scope} (h : assignIn name v scopes = .ok scopes') (other : String) :
    scopes'.findSome? (·.get? other) = if other = name then some v else scopes.findSome? (·.get? other) := by
  induction scopes generalizing scopes' with
  | nil => cases h
  | cons scope rest ih =>
    unfold assignIn at h
    split at h
    · cases h
      rw [List.findSome?_cons, List.findSome?_cons, Entries.get?_put]
      by_cases ho : other = name
      · rw [if_pos ho, if_pos ho]
      · rw [if_neg ho, if_neg ho]
    · rename_i hhas
      obtain ⟨rest', hrest, rfl⟩ := map_eq_ok.mp h
      have hnone : scope.get? name = none := by
        simpa [Entries.has] using hhas
      rw [List.findSome?_cons, List.findSome?_cons, ih hrest]
      by_cases ho : other = name
      · rw [if_pos ho, if_pos ho, ho, hnone]
      · rw [if_neg ho, if_neg ho]

theorem resolve?_assign (h : c.assign name v = .ok c') (other : String) :
    c'.resolve? other = if other = name then some v else c.resolve? other := by
  unfold assign at h
  split at h
  · rename_i c₁ hhead
    cases h
    unfold assignHead at hhead
    split at hhead
    · cases hhead
      exact resolve?_define c name other v
    · cases hhead
  · rename_i w hhead
    unfold assignHead at hhead
    split at hhead
    · cases hhead
    · rename_i hhas
      cases hhead
      obtain ⟨rest, hrest, rfl⟩ := map_eq_ok.mp h
      have hnone : c.head.get? name = none := by
        simpa [Entries.has] using hhas
      rw [resolve?_eq, resolve?_eq, assignIn_eq_ok hrest]
      by_cases ho : other = name
      · rw [if_pos ho, if_pos ho, ho, hnone]
        rfl
      · rw [if_neg ho, if_neg ho]

end FactFold.ScopeChain
