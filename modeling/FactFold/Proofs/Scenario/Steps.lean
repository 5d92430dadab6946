import FactFold.Proofs.Results
import FactFold.Scenario.Replay

namespace FactFold

namespace Action

def undoes : Action → Bool
  | insert _ _ => false
  | retract _ => true
  | update _ _ => true
  | result _ => false

def payload? : Action → Option Value
  | insert _ v => some v
  | retract _ => none
  | update _ v => some v
  | result _ => none

def liveAfter (live : Entries String Fact) (next : UInt64) : Action → Entries String Fact × UInt64
  | insert key v => (live.put key ⟨next, v⟩, next + 1)
  | retract key => (live.erase key, next)
  | update key v =>
    match live.get? key with
    | some old => (live.put key { old with value := v }, next)
    | none => (live, next)
  | result _ => (live, next)

end Action

theorem Step.actions_of_action {s : Step} {index : Nat} {a : Action} (h : s.action index = .ok a) :
    s.actions = [a] := by
  unfold Step.action at h
  split at h
  · next a' hs => rw [hs, Except.ok.inj h]
  · cases h
  · cases h

namespace Replay

variable {r r' : Replay} {fact : Fact} {index : Nat} {key : String} {v : Value} {b : Bool}

theorem folded_ok {α : Type} {f : Accumulator.Folded α} {x : α} (h : r.folded f = (.ok x, r')) :
    ∃ g, f = (.ok x, g) ∧ r' = { r with group := g } := by
  obtain ⟨result, g⟩ := f
  obtain ⟨hx, hr⟩ := Prod.mk.inj h
  exact ⟨g, Prod.ext (mapError_eq_ok.1 hx) rfl, hr.symm⟩

theorem insert_ok (h : r.insert index key v = (.ok (), r')) :
    r.live.get? key = none ∧ ∃ g, r.accumulator.accumulate r.group r.tuple ⟨r.next, v⟩ r.memory = (.ok (), g) ∧
      r' = { r with group := g, live := r.live.put key ⟨r.next, v⟩, next := r.next + 1 } := by
  unfold insert at h
  split at h
  · cases h
  · next hnew =>
    have hnone : r.live.get? key = none := by simpa [Entries.has] using hnew
    simp only [fresh] at h
    rcases hf : ({ r with next := r.next + 1 } : Replay).fold ⟨r.next, v⟩ with ⟨e | _, r₁⟩
    · simp [hf] at h
    · rw [hf] at h
      obtain ⟨g, hg, rfl⟩ := folded_ok hf
      exact ⟨hnone, g, hg, (Prod.mk.inj h).2.symm⟩

theorem undo_ok (h : r.undo fact = (.ok b, r')) :
    (r.accumulator.isReversible = true ∧ b = false ∧
        ∃ g, r.accumulator.reverseFold r.group fact = (.ok (), g) ∧ r' = { r with group := g }) ∨
      r.accumulator.isReversible = false ∧ b = true ∧
        ∃ g, r.accumulator.reset r.group r.tuple r.memory = (.ok (), g) ∧
          ({ r with group := g } : Replay).foldAll (r.live.map Prod.snd) = (.ok (), r') := by
  unfold undo at h
  split at h
  · next hr =>
    obtain ⟨hb, rfl⟩ := Prod.mk.inj h
    obtain ⟨_, hok, rfl⟩ := map_eq_ok.1 hb
    obtain ⟨g, hg, hr'⟩ := folded_ok (Prod.ext hok rfl)
    exact .inl ⟨hr, rfl, g, hg, hr'⟩
  · next hr =>
    rcases hs : r.reset with ⟨e | _, r₁⟩
    · simp [hs] at h
    · rw [hs] at h
      obtain ⟨g, hg, rfl⟩ := folded_ok hs
      obtain ⟨hb, rfl⟩ := Prod.mk.inj h
      obtain ⟨_, hok, rfl⟩ := map_eq_ok.1 hb
      exact .inr ⟨by simpa using hr, rfl, g, hg, Prod.ext hok rfl⟩

theorem retract_ok (h : r.retract index key = (.ok b, r')) :
    ∃ old, r.live.get? key = some old ∧ undo { r with live := r.live.erase key } old = (.ok b, r') := by
  unfold retract at h
  cases hk : r.live.get? key with
  | none => simp [hk] at h
  | some old =>
    rw [hk] at h
    exact ⟨old, rfl, h⟩

theorem update_ok (h : r.update index key v = (.ok b, r')) :
    ∃ old r₁, r.live.get? key = some old ∧
      undo { r with live := r.live.put key { old with value := v } } old = (.ok b, r₁) ∧
        (b = true ∧ r' = r₁ ∨ b = false ∧ r₁.fold { old with value := v } = (.ok (), r')) := by
  unfold update at h
  cases hk : r.live.get? key with
  | none => simp [hk] at h
  | some old =>
    simp only [hk] at h
    rcases hu : undo { r with live := r.live.put key { old with value := v } } old with ⟨e | _ | _, r₁⟩
    · simp [hu] at h
    · simp only [hu] at h
      obtain ⟨hb, rfl⟩ := Prod.mk.inj h
      obtain ⟨_, hok, rfl⟩ := map_eq_ok.1 hb
      exact ⟨old, r₁, rfl, hu, .inr ⟨rfl, Prod.ext hok rfl⟩⟩
    · simp only [hu] at h
      obtain ⟨hb, rfl⟩ := Prod.mk.inj h
      cases hb
      exact ⟨old, r₁, rfl, hu, .inl ⟨rfl, rfl⟩⟩

end Replay

end FactFold
