import FactFold.Imports
import FactFold.Proofs.Entries
import FactFold.Proofs.Equality
import FactFold.Proofs.Results

namespace FactFold

def Registry.Proper (r : Registry) : Prop :=
  ∀ entry ∈ r.fields, entry.2.Proper

namespace Imports

variable {α : Type} {P : α → Prop} {find : String → String → Option α} {imported : Entries String α}

theorem findMembers_forall (hf : ∀ owner name a, find owner name = some a → P a) {paths : List String}
    {found : Entries String α} (hfound : ∀ entry ∈ found, P entry.2)
    (h : findMembers find paths found = .ok imported) : ∀ entry ∈ imported, P entry.2 := by
  induction paths generalizing found with
  | nil => exact Except.ok.inj h ▸ hfound
  | cons path rest ih =>
    unfold findMembers at h
    cases hs : splitLast? path with
    | none => simp [hs] at h
    | some member =>
      cases ha : find member.1 member.2 with
      | none => simp [hs, ha] at h
      | some a =>
        simp only [hs, ha] at h
        refine ih (fun entry hentry => ?_) h
        rcases Entries.mem_put hentry with rfl | hentry
        · exact hf _ _ a ha
        · rcases Entries.mem_put hentry with rfl | hentry
          · exact hf _ _ a ha
          · exact hfound entry hentry

theorem member?_forall (i : Imports) (hf : ∀ owner name a, find owner name = some a → P a)
    (himported : ∀ entry ∈ imported, P entry.2) {path : String} {a : α}
    (h : i.member? imported find path = some a) : P a := by
  unfold member? at h
  cases hg : imported.get? path with
  | some b =>
    rw [hg] at h
    obtain rfl : b = a := Option.some.inj h
    exact himported _ (Entries.mem_of_get? hg)
  | none =>
    rw [hg] at h
    obtain ⟨⟨owner, name⟩, -, h⟩ := Option.bind_eq_some_iff.1 h
    obtain ⟨qualified, -, h⟩ := Option.bind_eq_some_iff.1 h
    exact hf qualified name a h

theorem ofPlan_constant?_forall {r : Registry} {P : Value → Prop} (hr : ∀ entry ∈ r.fields, P entry.2) {p : Plan}
    {i : Imports} (h : ofPlan p r = .ok i) {path : String} {v : Value} (hv : i.constant? r path = some v) : P v := by
  have hfield (owner name : String) (v : Value) (hv : r.field? owner name = some v) : P v :=
    hr _ (Entries.mem_of_get? hv)
  obtain ⟨types, -, h⟩ := bind_eq_ok.1 h
  obtain ⟨methods, -, h⟩ := bind_eq_ok.1 h
  obtain ⟨fields, hfields, h⟩ := bind_eq_ok.1 h
  cases h
  exact member?_forall _ hfield (findMembers_forall hfield (by simp) hfields) hv

theorem ofPlan_constant? {r : Registry} (hr : r.Proper) {p : Plan} {i : Imports} (h : ofPlan p r = .ok i)
    {path : String} {v : Value} (hv : i.constant? r path = some v) : v.Proper :=
  ofPlan_constant?_forall hr h hv

end Imports

end FactFold
