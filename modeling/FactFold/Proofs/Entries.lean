import Mathlib
import FactFold.Entries

namespace FactFold.Entries

variable {κ α : Type}

def weigh (entries : Entries κ α) (weight : α → Int) : Int :=
  (entries.map fun entry => weight entry.2).sum

theorem weigh_cons (key : κ) (value : α) (rest : Entries κ α) (weight : α → Int) :
    weigh ((key, value) :: rest) weight = weight value + rest.weigh weight :=
  List.sum_cons

theorem weigh_perm {entries entries' : Entries κ α} (h : entries.Perm entries') (weight : α → Int) :
    entries.weigh weight = entries'.weigh weight :=
  (h.map _).sum_eq

variable [BEq κ] [LawfulBEq κ] {entries rest : Entries κ α} {key k : κ} {old v : α}

theorem erase_cons_of_ne (h : key ≠ k) : Entries.erase ((k, v) :: rest) key = (k, v) :: Entries.erase rest key := by
  simp [erase, h]

theorem put_cons_of_ne (h : key ≠ k) (value : α) :
    Entries.put ((k, v) :: rest) key value = (k, v) :: Entries.put rest key value := by
  simp [put, h]

theorem exists_split (h : entries.get? key = some old) :
    ∃ front back : Entries κ α, entries = front ++ (key, old) :: back ∧ ∀ entry ∈ front, key ≠ entry.1 := by
  obtain ⟨front, back, hsplit, hfront⟩ := List.lookup_eq_some_iff.1 h
  exact ⟨front, back, hsplit, fun entry hentry => bne_iff_ne.1 (hfront entry hentry)⟩

theorem put_split {front : Entries κ α} (hfront : ∀ entry ∈ front, key ≠ entry.1) (back : Entries κ α) (value : α) :
    Entries.put (front ++ (key, old) :: back) key value = front ++ (key, value) :: back := by
  induction front with
  | nil => simp [put]
  | cons entry front ih =>
    obtain ⟨hne, hfront⟩ := List.forall_mem_cons.1 hfront
    rw [List.cons_append, put_cons_of_ne hne, ih hfront, List.cons_append]

theorem erase_split {front : Entries κ α} (hfront : ∀ entry ∈ front, key ≠ entry.1) (back : Entries κ α) :
    Entries.erase (front ++ (key, old) :: back) key = front ++ back := by
  rw [erase, List.eraseP_append_right _ (by simpa using hfront), List.eraseP_cons_of_pos (by simp)]

theorem perm_erase (h : entries.get? key = some old) : entries.Perm ((key, old) :: entries.erase key) := by
  obtain ⟨front, back, rfl, hfront⟩ := exists_split h
  rw [erase_split hfront]
  exact List.perm_middle

theorem perm_put (h : entries.get? key = some old) (value : α) :
    (entries.put key value).Perm ((key, value) :: entries.erase key) := by
  obtain ⟨front, back, rfl, hfront⟩ := exists_split h
  rw [put_split hfront, erase_split hfront]
  exact List.perm_middle

theorem map_put {β : Type} {f : α → β} {value : α} (h : entries.get? key = some old) (hf : f value = f old) :
    ((entries.put key value).map fun entry => f entry.2) = entries.map fun entry => f entry.2 := by
  obtain ⟨front, back, rfl, hfront⟩ := exists_split h
  rw [put_split hfront, List.map_append, List.map_cons, List.map_append, List.map_cons, hf]

theorem mem_of_get? (h : entries.get? key = some v) : (key, v) ∈ entries :=
  (perm_erase h).mem_iff.2 (List.mem_cons_self ..)

theorem weigh_erase (weight : α → Int) (h : entries.get? key = some old) :
    (entries.erase key).weigh weight = entries.weigh weight - weight old := by
  rw [weigh_perm (perm_erase h), weigh_cons]
  omega

theorem weigh_put (weight : α → Int) (h : entries.get? key = some old) (value : α) :
    (entries.put key value).weigh weight = entries.weigh weight - weight old + weight value := by
  rw [weigh_perm (perm_put h value), weigh_cons, weigh_erase weight h]
  omega

variable [DecidableEq κ]

theorem put_of_none (h : entries.get? key = none) (value : α) :
    entries.put key value = entries ++ [(key, value)] := by
  induction entries with
  | nil => rfl
  | cons entry rest ih =>
    obtain ⟨k, v⟩ := entry
    rw [get?_cons] at h
    split at h
    · cases h
    · next hk => simp [put, hk, ih h]

theorem foldl_put {pairs : List (κ × α)} (entries : Entries κ α) (h : ((entries ++ pairs).map Prod.fst).Nodup) :
    pairs.foldl (fun entries pair => entries.put pair.1 pair.2) entries = entries ++ pairs := by
  induction pairs generalizing entries with
  | nil => simp
  | cons pair rest ih =>
    have hnone : entries.get? pair.1 = none := by
      rw [get?_eq_none_iff]
      rw [List.map_append, List.map_cons] at h
      exact fun hmem => (List.nodup_append.1 h).2.2 _ hmem _ (List.mem_cons_self ..) rfl
    have hnext := ih (entries ++ [pair]) (by simpa using h)
    rw [List.foldl_cons, put_of_none hnone, hnext, List.append_assoc]
    rfl

theorem ofList_of_nodup {pairs : List (κ × α)} (h : (pairs.map Prod.fst).Nodup) : ofList pairs = pairs :=
  foldl_put [] h

theorem put_eq_map (hn : (entries.map Prod.fst).Nodup) (h : entries.get? key = some old) (value : α) :
    entries.put key value = entries.map fun entry => if entry.1 = key then (key, value) else entry := by
  obtain ⟨front, back, rfl, hfront⟩ := exists_split h
  have hsame {part : Entries κ α} (hpart : ∀ entry ∈ part, key ≠ entry.1) :
      (part.map fun entry => if entry.1 = key then (key, value) else entry) = part := by
    rw [List.map_congr_left fun entry hentry => if_neg (hpart entry hentry).symm, List.map_id']
  have hback : ∀ entry ∈ back, key ≠ entry.1 := by
    rw [List.map_append, List.map_cons] at hn
    have hrest := (List.nodup_cons.1 (List.nodup_append.1 hn).2.1).1
    exact fun entry hentry he => hrest (List.mem_map.2 ⟨entry, hentry, he.symm⟩)
  rw [put_split hfront, List.map_append, List.map_cons, hsame hfront, hsame hback, if_pos rfl]

theorem erase_eq_filter (hn : (entries.map Prod.fst).Nodup) (key : κ) :
    entries.erase key = entries.filter (·.1 ≠ key) := by
  induction entries with
  | nil => rfl
  | cons entry rest ih =>
    obtain ⟨k, v⟩ := entry
    obtain ⟨hfirst, hrest⟩ := List.nodup_cons.1 hn
    by_cases hk : key = k
    · subst hk
      have hsame : rest.filter (·.1 ≠ key) = rest := by
        refine List.filter_eq_self.2 fun entry hentry => ?_
        simpa using fun he : entry.1 = key => hfirst (List.mem_map.2 ⟨entry, hentry, he⟩)
      rw [List.filter_cons_of_neg (by simp), hsame]
      simp [erase]
    · rw [erase_cons_of_ne hk, List.filter_cons_of_pos (by simpa using Ne.symm hk), ih hrest]

theorem mem_put {value : α} {entry : κ × α} (h : entry ∈ entries.put key value) :
    entry = (key, value) ∨ entry ∈ entries := by
  cases hk : entries.get? key with
  | none =>
    rw [put_of_none hk, List.mem_append, List.mem_singleton] at h
    exact h.symm
  | some old =>
    refine (List.mem_cons.1 ((perm_put hk value).mem_iff.1 h)).imp_right fun hmem => ?_
    exact (perm_erase hk).mem_iff.2 (List.mem_cons_of_mem _ hmem)

theorem weigh_put_of_none (weight : α → Int) (h : entries.get? key = none) (value : α) :
    (entries.put key value).weigh weight = entries.weigh weight + weight value := by
  simp [put_of_none h, weigh]

end FactFold.Entries
