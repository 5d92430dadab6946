import FactFold.Context
import FactFold.Proofs.Scope
import FactFold.Proofs.Script.Writes

namespace FactFold

open Script

namespace Context

def Holds (k : Context) (name : String) : Prop :=
  ∃ v, k.resolve name = .ok v

variable {k k' : Context} {name : String} {v : Value}

theorem holds_iff (k : Context) (name : String) :
    k.Holds name ↔ (∃ i, k.slot? name = some i ∧ i < k.slots.length) ∨ (k.scope.resolve? name).isSome := by
  have hslot : (∃ i, k.slot? name = some i ∧ i < k.slots.length) ↔
      ((k.slot? name).bind (k.slots[·]?)).isSome := by
    cases k.slot? name <;> simp
  rw [hslot]
  unfold Holds resolve
  cases (k.slot? name).bind (k.slots[·]?) <;> cases k.scope.resolve? name <;> simp

theorem resolve_eq_error {e : RunError} (h : k.resolve name = .error e) :
    e = .unresolved name ∧ ¬k.Holds name := by
  constructor
  · unfold resolve at h
    split at h
    · cases h
    · cases h
      rfl
  · rintro ⟨v, hv⟩
    rw [hv] at h
    cases h

theorem holds_writeSlot {slot : Nat} (h : k.writeSlot slot v = .ok k') (hk : k.Holds name) : k'.Holds name := by
  unfold writeSlot at h
  split at h
  · cases h
    rw [holds_iff] at hk ⊢
    simpa [slot?] using hk
  · cases h

theorem holds_slot {slot : Nat} (h : k.writeSlot slot v = .ok k') (hs : k.slot? name = some slot) :
    k'.Holds name := by
  unfold writeSlot at h
  split at h
  · rename_i hlt
    cases h
    rw [holds_iff]
    exact .inl ⟨slot, hs, by simpa using hlt⟩
  · cases h

theorem holds_scope {scope : ScopeChain} {written : String}
    (hscope : ∀ other, scope.resolve? other = if other = written then some v else k.scope.resolve? other)
    (hk : name = written ∨ k.Holds name) : Holds { k with scope } name := by
  rw [holds_iff]
  simp only [hscope]
  by_cases hn : name = written
  · simp [hn]
  · rw [if_neg hn]
    exact (holds_iff k name).mp (hk.resolve_left hn)

theorem holds_writeName {written : String} (h : k.writeName written v = .ok k')
    (hk : name = written ∨ k.Holds name) : k'.Holds name := by
  unfold writeName at h
  split at h
  · rename_i slot hs
    obtain rfl | hk := hk
    · exact holds_slot h hs
    · exact holds_writeSlot h hk
  · split at h
    · rename_i scope hassign
      cases h
      exact holds_scope (ScopeChain.resolve?_assign hassign) hk
    · rename_i w hassign
      cases h
      exact holds_scope (fun other => ScopeChain.resolve?_define k.scope written other w) hk

theorem holds_declare {declared : String} (h : k.declare declared v = .ok k')
    (hk : name = declared ∨ k.Holds name) : k'.Holds name := by
  unfold declare at h
  split at h
  · rename_i slot type hs ht
    split at h
    · cases h
    · obtain rfl | hk := hk
      · exact holds_slot h hs
      · exact holds_writeSlot h hk
  · cases h
    exact holds_scope (fun other => ScopeChain.resolve?_define k.scope declared other v) hk

theorem writeSlot_ne_unresolved {slot : Nat} {n : String} : k.writeSlot slot v ≠ .error (.unresolved n) := by
  unfold writeSlot
  split <;> nofun

theorem writeName_ne_unresolved {written n : String} : k.writeName written v ≠ .error (.unresolved n) := by
  unfold writeName
  split
  · exact writeSlot_ne_unresolved
  · split <;> nofun

theorem declare_ne_unresolved {declared n : String} : k.declare declared v ≠ .error (.unresolved n) := by
  unfold declare
  split
  · split
    · nofun
    · exact writeSlot_ne_unresolved
  · nofun

theorem preserved_holds (name : String) : Preserved fun k : Context => k.Holds name := by
  have hafter {k : Context} {write : Except RunError Context} (hk : k.Holds name)
      (h : ∀ k', write = .ok k' → k'.Holds name) : (k.after write).2.Holds name := by
    cases write with
    | error e => exact hk
    | ok k' => exact h k' rfl
  constructor
  · exact fun k slot v hk => hafter hk fun k' h => holds_writeSlot h hk
  · exact fun k written v hk => hafter hk fun k' h => holds_writeName h (.inr hk)
  · exact fun k declared v type hk => hafter hk fun k' h => holds_declare h (.inr hk)

end Context

end FactFold
