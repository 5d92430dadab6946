namespace FactFold

abbrev Entries (κ α : Type) :=
  List (κ × α)

namespace Entries

variable {κ α : Type} [BEq κ]

def get? (entries : Entries κ α) (key : κ) : Option α :=
  entries.lookup key

def has (entries : Entries κ α) (key : κ) : Bool :=
  (entries.get? key).isSome

def put (entries : Entries κ α) (key : κ) (value : α) : Entries κ α :=
  match entries with
  | [] => [(key, value)]
  | (k, v) :: rest => if key == k then (k, value) :: rest else (k, v) :: put rest key value

def erase (entries : Entries κ α) (key : κ) : Entries κ α :=
  entries.eraseP (key == ·.1)

def ofList (pairs : List (κ × α)) : Entries κ α :=
  pairs.foldl (fun entries (k, v) => entries.put k v) []

def position? (entries : Entries κ α) (key : κ) : Option Nat :=
  entries.findIdx? (key == ·.1)

theorem get?_cons [LawfulBEq κ] [DecidableEq κ] (k key : κ) (v : α) (rest : Entries κ α) :
    Entries.get? ((k, v) :: rest) key = if key = k then some v else rest.get? key := by
  by_cases h : key = k
  · simp [get?, h]
  · simp [get?, List.lookup_cons, beq_eq_false_iff_ne.2 h, h]

theorem get?_put [LawfulBEq κ] [DecidableEq κ] (entries : Entries κ α) (key other : κ) (value : α) :
    (entries.put key value).get? other = if other = key then some value else entries.get? other := by
  induction entries with
  | nil => simp [put, get?_cons]
  | cons entry rest ih =>
    obtain ⟨k, v⟩ := entry
    by_cases hk : key = k
    · subst hk
      by_cases ho : other = key <;> simp [put, get?_cons, ho]
    · by_cases ho : other = k
      · subst ho
        simp [put, get?_cons, hk, Ne.symm hk]
      · simp [put, get?_cons, hk, ho, ih]

theorem keys_put [LawfulBEq κ] [DecidableEq κ] (entries : Entries κ α) (key : κ) (value : α) :
    (entries.put key value).map Prod.fst =
      if key ∈ entries.map Prod.fst then entries.map Prod.fst else entries.map Prod.fst ++ [key] := by
  induction entries with
  | nil => simp [put]
  | cons entry rest ih =>
    obtain ⟨k, v⟩ := entry
    by_cases hk : key = k
    · simp [put, hk]
    · by_cases hr : key ∈ rest.map Prod.fst <;> simp [put, hk, hr] at ih ⊢ <;> exact ih

theorem get?_erase_of_ne [LawfulBEq κ] [DecidableEq κ] (entries : Entries κ α) {key other : κ} (h : other ≠ key) :
    (entries.erase key).get? other = entries.get? other := by
  induction entries with
  | nil => rfl
  | cons entry rest ih =>
    obtain ⟨k, v⟩ := entry
    by_cases hk : key = k
    · simp [erase, get?_cons, hk, hk ▸ h]
    · have ih : Entries.get? (rest.eraseP (key == ·.1)) other = Entries.get? rest other := ih
      simp [erase, get?_cons, hk, ih]

theorem keys_erase [LawfulBEq κ] [DecidableEq κ] (entries : Entries κ α) (key : κ) :
    (entries.erase key).map Prod.fst = (entries.map Prod.fst).erase key := by
  induction entries with
  | nil => rfl
  | cons entry rest ih =>
    obtain ⟨k, v⟩ := entry
    by_cases hk : key = k
    · simp [erase, hk]
    · have ih : (rest.eraseP (key == ·.1)).map Prod.fst = (rest.map Prod.fst).erase key := ih
      simp [erase, hk, Ne.symm hk, ih]

theorem get?_eq_none_iff [LawfulBEq κ] [DecidableEq κ] (entries : Entries κ α) (key : κ) :
    entries.get? key = none ↔ key ∉ entries.map Prod.fst := by
  induction entries with
  | nil => simp [get?]
  | cons entry rest ih =>
    obtain ⟨k, v⟩ := entry
    by_cases hk : key = k <;> simp [get?_cons, hk, ih]

theorem get?_eq_some_of_mem [LawfulBEq κ] [DecidableEq κ] {entries : Entries κ α} (h : (entries.map Prod.fst).Nodup)
    {entry : κ × α} (hmem : entry ∈ entries) : entries.get? entry.1 = some entry.2 := by
  induction entries with
  | nil => cases hmem
  | cons first rest ih =>
    obtain ⟨hfirst, hrest⟩ := List.nodup_cons.1 h
    rw [get?_cons first.1 entry.1 first.2 rest]
    rcases List.mem_cons.1 hmem with rfl | hmem
    · exact if_pos rfl
    · have hne : entry.1 ≠ first.1 := fun he => hfirst (he ▸ List.mem_map_of_mem hmem)
      rw [if_neg hne]
      exact ih hrest hmem

theorem get?_erase_self [LawfulBEq κ] [DecidableEq κ] {entries : Entries κ α} (h : (entries.map Prod.fst).Nodup)
    (key : κ) : (entries.erase key).get? key = none := by
  rw [get?_eq_none_iff, keys_erase, h.mem_erase_iff]
  simp

theorem nodup_put [LawfulBEq κ] [DecidableEq κ] {entries : Entries κ α} (h : (entries.map Prod.fst).Nodup) (key : κ)
    (value : α) : ((entries.put key value).map Prod.fst).Nodup := by
  rw [keys_put]
  split
  · exact h
  · next hk =>
    refine List.nodup_append.2 ⟨h, by simp, ?_⟩
    intro k hmem k' hk' he
    rw [List.mem_singleton.1 hk'] at he
    exact hk (he ▸ hmem)

theorem nodup_erase [LawfulBEq κ] [DecidableEq κ] {entries : Entries κ α} (h : (entries.map Prod.fst).Nodup)
    (key : κ) : ((entries.erase key).map Prod.fst).Nodup := by
  rw [keys_erase]
  exact h.erase key

end Entries

end FactFold
