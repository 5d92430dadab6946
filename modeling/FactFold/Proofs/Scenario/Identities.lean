import FactFold.Proofs.Entries
import FactFold.Proofs.Scenario.Steps

namespace FactFold

def Issued (first : UInt64) (count : Nat) (live : Entries String Fact) (next : UInt64) : Prop :=
  ∃ taken ≤ count, next = first + .ofNat taken ∧
    ∀ entry ∈ live, ∃ i < taken, entry.2.id = first + .ofNat i

namespace Issued

variable {first next : UInt64} {count : Nat} {live live' : Entries String Fact}

theorem fresh (h : Issued first count live next) (hcount : count < UInt64.size) :
    ∀ entry ∈ live, entry.2.id ≠ next := by
  obtain ⟨taken, htaken, rfl, hlive⟩ := h
  intro entry hentry he
  obtain ⟨i, hi, hid⟩ := hlive entry hentry
  have heq : UInt64.ofNat i = UInt64.ofNat taken := UInt64.add_right_inj first |>.1 (hid.symm.trans he)
  have hnat : i = taken := by
    rw [← UInt64.toNat_ofNat_of_lt' (show i < UInt64.size by omega), heq,
      UInt64.toNat_ofNat_of_lt' (show taken < UInt64.size by omega)]
  omega

theorem mono (h : Issued first count live next) (hlive : ∀ entry ∈ live', ∃ other ∈ live, entry.2.id = other.2.id) :
    Issued first (count + 1) live' next := by
  obtain ⟨taken, htaken, hnext, htook⟩ := h
  refine ⟨taken, by omega, hnext, fun entry hentry => ?_⟩
  obtain ⟨other, hother, hid⟩ := hlive entry hentry
  rw [hid]
  exact htook other hother

theorem issue (h : Issued first count live next)
    (hlive : ∀ entry ∈ live', entry ∈ live ∨ entry.2.id = next) : Issued first (count + 1) live' (next + 1) := by
  obtain ⟨taken, htaken, rfl, htook⟩ := h
  refine ⟨taken + 1, by omega, ?_, fun entry hentry => ?_⟩
  · rw [UInt64.add_assoc, UInt64.ofNat_add]
    rfl
  · rcases hlive entry hentry with hold | hnew
    · obtain ⟨i, hi, hid⟩ := htook entry hold
      exact ⟨i, by omega, hid⟩
    · exact ⟨taken, by omega, hnew⟩

end Issued

def liveIds (live : Entries String Fact) : List UInt64 :=
  live.map fun entry => entry.2.id

structure Identified (first : UInt64) (count : Nat) (live : Entries String Fact) (next : UInt64) : Prop where
  distinct : (liveIds live).Nodup
  issued : Issued first count live next

namespace Identified

variable {first next : UInt64} {count : Nat} {live : Entries String Fact} {key : String} {old : Fact} {v : Value}

theorem none (first : UInt64) : Identified first 0 [] first :=
  ⟨List.nodup_nil, 0, Nat.le_refl 0, (UInt64.add_zero _).symm, by simp⟩

theorem wait (h : Identified first count live next) : Identified first (count + 1) live next :=
  ⟨h.distinct, h.issued.mono fun entry hentry => ⟨entry, hentry, rfl⟩⟩

theorem insert (h : Identified first count live next) (hcount : count < UInt64.size)
    (hnew : live.get? key = .none) :
    liveIds (live.put key ⟨next, v⟩) = liveIds live ++ [next] ∧ next ∉ liveIds live ∧
      Identified first (count + 1) (live.put key ⟨next, v⟩) (next + 1) := by
  have hids : liveIds (live.put key ⟨next, v⟩) = liveIds live ++ [next] := by
    rw [Entries.put_of_none hnew, liveIds, List.map_append]
    rfl
  have hfresh : next ∉ liveIds live := by
    intro hmem
    obtain ⟨entry, hentry, hid⟩ := List.mem_map.1 hmem
    exact h.issued.fresh hcount entry hentry hid
  refine ⟨hids, hfresh, ?_, h.issued.issue fun entry hentry => ?_⟩
  · rw [hids, List.nodup_append_comm]
    exact List.nodup_cons.2 ⟨hfresh, h.distinct⟩
  · rw [Entries.put_of_none hnew, List.mem_append, List.mem_singleton] at hentry
    exact hentry.imp_right fun he => by rw [he]

theorem erase (h : Identified first count live next) (hold : live.get? key = some old) :
    (liveIds live).Perm (old.id :: liveIds (live.erase key)) ∧ old.id ∉ liveIds (live.erase key) ∧
      Identified first (count + 1) (live.erase key) next := by
  have hperm := Entries.perm_erase hold
  have hids : (liveIds live).Perm (old.id :: liveIds (live.erase key)) := hperm.map _
  obtain ⟨hnot, hdistinct⟩ := List.nodup_cons.1 (hids.nodup_iff.1 h.distinct)
  refine ⟨hids, hnot, hdistinct, h.issued.mono fun entry hentry => ?_⟩
  exact ⟨entry, hperm.mem_iff.2 (List.mem_cons_of_mem _ hentry), rfl⟩

theorem update (h : Identified first count live next) (hold : live.get? key = some old) (v : Value) :
    liveIds (live.put key { old with value := v }) = liveIds live ∧
      Identified first (count + 1) (live.put key { old with value := v }) next := by
  have hids : liveIds (live.put key { old with value := v }) = liveIds live := Entries.map_put hold rfl
  refine ⟨hids, hids ▸ h.distinct, h.issued.mono fun entry hentry => ?_⟩
  have hmem : entry.2.id ∈ liveIds live := hids ▸ List.mem_map_of_mem hentry
  obtain ⟨other, hother, hid⟩ := List.mem_map.1 hmem
  exact ⟨other, hother, hid.symm⟩

end Identified

end FactFold
