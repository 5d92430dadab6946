import FactFold.Proofs.Json.Scalars

namespace FactFold.Json

inductive Readable : Nat → Json → Prop where
  | null (depth : Nat) : Readable depth null
  | bool (depth : Nat) (b : Bool) : Readable depth (bool b)
  | int (depth : Nat) {n : Int} (hmin : -(2 : Int) ^ 63 ≤ n) (hmax : n < 2 ^ 64) : Readable depth (int n)
  | float (depth : Nat) {x : Float} (h : ReadsBack x) : Readable depth (float x)
  | text (depth : Nat) (s : String) : Readable depth (text s)
  | array {depth : Nat} {items : List Json} (h : ∀ j ∈ items, Readable depth j) : Readable (depth + 1) (array items)
  | object {depth : Nat} {members : List (String × Json)} (h : ∀ m ∈ members, Readable depth m.2) :
    Readable (depth + 1) (object members)

theorem Readable.mono {depth depth' : Nat} {j : Json} (h : Readable depth j) (hle : depth ≤ depth') :
    Readable depth' j := by
  induction h generalizing depth' with
  | null => exact .null _
  | bool _ b => exact .bool _ b
  | int _ hmin hmax => exact .int _ hmin hmax
  | float _ h => exact .float _ h
  | text _ s => exact .text _ s
  | array _ ih =>
    obtain ⟨d, rfl⟩ := Nat.exists_eq_add_of_le' hle
    exact .array fun j hj => ih j hj (Nat.le_add_left ..)
  | object _ ih =>
    obtain ⟨d, rfl⟩ := Nat.exists_eq_add_of_le' hle
    exact .object fun m hm => ih m hm (Nat.le_add_left ..)

theorem readable_texts (items : List String) : Readable 1 (.texts items) := by
  refine .array fun j hj => ?_
  obtain ⟨s, -, rfl⟩ := List.mem_map.1 hj
  exact .text 0 s

theorem readable_nat (depth : Nat) {n : Nat} (h : n < 2 ^ 64) : Readable depth (.nat n) :=
  .int depth (by omega) (by exact_mod_cast h)

section

variable {α : Type} {closing : Char} {item : List Char → Option (α × List Char)}

theorem skipBlanks_cons {c : Char} (h : isBlank c = false) (cs : List Char) : skipBlanks (c :: cs) = c :: cs := by
  simp [skipBlanks, h]

structure Spells (closing : Char) (item : List Char → Option (α × List Char)) (cs : List Char) (a : α) : Prop where
  first : ∃ c tail, cs = c :: tail ∧ isBlank c = false ∧ c ≠ closing
  reads : ∀ rest, Ends rest → item (cs ++ rest) = some (a, rest)

theorem Spells.skipBlanks {cs : List Char} {a : α} (h : Spells closing item cs a) (rest : List Char) :
    skipBlanks (cs ++ rest) = cs ++ rest := by
  obtain ⟨c, tail, rfl, hc, -⟩ := h.first
  exact skipBlanks_cons hc _

theorem length_intercalate (parts : List (List Char)) : parts.length ≤ ([','].intercalate parts).length + 1 := by
  induction parts with
  | nil => simp
  | cons p parts ih =>
    cases parts with
    | nil => simp
    | cons q parts =>
      rw [List.intercalate_cons_cons]
      simp only [List.length_cons, List.length_append] at ih ⊢
      omega

variable {parts : List (List Char)} {values : List α}

theorem items?_intercalate (hclosing : closing = ']' ∨ closing = '\x7d')
    (h : List.Forall₂ (Spells closing item) parts values) (hparts : parts ≠ []) {bound : List Char}
    (hbound : parts.length ≤ bound.length) (rest : List Char) (done : List α) :
    items? closing item bound ([','].intercalate parts ++ closing :: rest) done =
      some (done.reverse ++ values, rest) := by
  have hblank : isBlank closing = false := by
    rcases hclosing with rfl | rfl <;> rfl
  have hends : Ends (closing :: rest) := by
    rcases hclosing with rfl | rfl <;> exact ends_cons_iff.2 (by simp)
  have hcomma : ',' ≠ closing := by
    rcases hclosing with rfl | rfl <;> decide
  induction h generalizing bound done with
  | nil => exact absurd rfl hparts
  | @cons p a parts values hp hrest ih =>
    cases bound with
    | nil => simp at hbound
    | cons b bound =>
      cases hrest with
      | nil =>
        rw [List.intercalate_singleton, items?, hp.skipBlanks, hp.reads _ hends]
        simp [skipBlanks_cons hblank]
      | @cons q _ parts values hq hrest =>
        have hnext := ih (by simp) (Nat.le_of_succ_le_succ hbound) (a :: done)
        rw [List.intercalate_cons_cons, List.append_assoc, List.append_assoc, List.singleton_append, items?,
          hp.skipBlanks, hp.reads _ (ends_cons_iff.2 (by simp))]
        simp [skipBlanks_cons (c := ',') rfl, hcomma, hnext]

theorem exists_intercalate_eq_cons (c : Char) (tail : List Char) (parts : List (List Char)) :
    ∃ tail', [','].intercalate ((c :: tail) :: parts) = c :: tail' := by
  cases parts with
  | nil => exact ⟨tail, List.intercalate_singleton⟩
  | cons q parts => exact ⟨_, by rw [List.intercalate_cons_cons]; rfl⟩

theorem sequence?_intercalate (hclosing : closing = ']' ∨ closing = '\x7d')
    (h : List.Forall₂ (Spells closing item) parts values) (rest : List Char) :
    sequence? closing item ([','].intercalate parts ++ closing :: rest) = some (values, rest) := by
  cases h with
  | nil =>
    have hblank : isBlank closing = false := by
      rcases hclosing with rfl | rfl <;> rfl
    simp [sequence?, skipBlanks_cons hblank]
  | @cons p _ parts _ hp hrest =>
    obtain ⟨c, tail, rfl, hc, hne⟩ := hp.first
    obtain ⟨tail', hfull⟩ := exists_intercalate_eq_cons c tail parts
    -- between two items there is a comma, so the text is long enough to bound the number of items
    have hbound : ((c :: tail) :: parts).length ≤
        ([','].intercalate ((c :: tail) :: parts) ++ closing :: rest).length := by
      have := length_intercalate ((c :: tail) :: parts)
      rw [List.length_append]
      simp only [List.length_cons] at this ⊢
      omega
    have hitems := items?_intercalate hclosing (.cons hp hrest) (by simp) hbound rest []
    rw [hfull, List.cons_append] at hitems ⊢
    simpa [sequence?, skipBlanks_cons hc, hne] using hitems

end

theorem exists_first {depth : Nat} {cs : List Char} {result : Json × List Char} (h : tree? depth cs = some result) :
    ∃ c tail, cs = c :: tail ∧ isBlank c = false ∧ c ≠ ']' := by
  rw [tree?.eq_def] at h
  split at h
  case h_8 =>
    obtain ⟨c, tail, rfl, hc⟩ := exists_digit h
    refine ⟨c, tail, rfl, ?_, ?_⟩
    · by_contra hblank
      simp only [isBlank, Bool.not_eq_false, Bool.or_eq_true, beq_iff_eq] at hblank
      rcases hblank with ((rfl | rfl) | rfl) | rfl <;> cases hc
    · rintro rfl
      cases hc
  all_goals exact ⟨_, _, rfl, rfl, by decide⟩

theorem compactItems_eq (items : List Json) : compactItems items = items.map compact := by
  induction items <;> simp_all [compactItems]

theorem compactMembers_eq (members : List (String × Json)) :
    compactMembers members = members.map fun m => quote m.1 ++ ":" ++ compact m.2 := by
  induction members <;> simp_all [compactMembers]

theorem toList_quote (s : String) : (quote s).toList = '"' :: (s.toList.flatMap escape ++ ['"']) :=
  String.toList_ofList

theorem tree?_text (depth : Nat) (s : String) (rest : List Char) :
    tree? depth ((quote s).toList ++ rest) = some (.text s, rest) := by
  rw [toList_quote, List.cons_append, List.append_assoc, tree?.eq_def]
  simp [text?_escapes]

theorem namedTree?_compact {item : List Char → Option (Json × List Char)} {name : String} {cs : List Char} {j : Json}
    (h : Spells ']' item cs j) : Spells '\x7d' (namedTree? item) ((quote name).toList ++ ':' :: cs) (name, j) where
  first := ⟨_, _, by rw [toList_quote]; rfl, rfl, by decide⟩
  reads rest hrest := by
    rw [toList_quote]
    simp [namedTree?, text?_escapes, skipBlanks_cons (c := ':') rfl, h.skipBlanks, h.reads rest hrest]

theorem tree?_compact {depth : Nat} {j : Json} (h : Readable depth j) {rest : List Char} (hrest : Ends rest) :
    tree? depth (j.compact.toList ++ rest) = some (j, rest) := by
  have hspells {depth : Nat} {j : Json}
      (hj : ∀ {rest}, Ends rest → tree? depth (j.compact.toList ++ rest) = some (j, rest)) :
      Spells ']' (tree? depth) j.compact.toList j :=
    ⟨exists_first (List.append_nil _ ▸ hj ends_nil), fun _ => hj⟩
  induction h generalizing rest with
  | null => rw [tree?.eq_def]; rfl
  | bool _ b => cases b <;> (rw [tree?.eq_def]; rfl)
  | int _ hmin hmax => exact tree?_append (tree?_int hmin hmax) (.inl ⟨_, rfl⟩) hrest
  | float _ h => exact tree?_append h (.inr ⟨_, rfl⟩) hrest
  | text depth s => exact tree?_text depth s rest
  | @array depth items _ ih =>
    have hitems : List.Forall₂ (Spells ']' (tree? depth)) (items.map fun j => j.compact.toList) items :=
      List.forall₂_map_left_iff.2 (List.forall₂_same.2 fun j hj => hspells (ih j hj))
    have htext : (array items).compact.toList ++ rest =
        '[' :: ([','].intercalate (items.map fun j => j.compact.toList) ++ ']' :: rest) := by
      simp [compact, compactItems_eq, String.toList_append, String.toList_intercalate, Function.comp_def]
    rw [htext, tree?.eq_def]
    simp [sequence?_intercalate (.inl rfl) hitems rest]
  | @object depth members _ ih =>
    have hmembers : List.Forall₂ (Spells '\x7d' (namedTree? (tree? depth)))
        (members.map fun m => (quote m.1).toList ++ ':' :: m.2.compact.toList) members :=
      List.forall₂_map_left_iff.2 (List.forall₂_same.2 fun m hm => namedTree?_compact (hspells (ih m hm)))
    have htext : (object members).compact.toList ++ rest =
        '\x7b' :: ([','].intercalate (members.map fun m => (quote m.1).toList ++ ':' :: m.2.compact.toList) ++
          '\x7d' :: rest) := by
      simp [compact, compactMembers_eq, String.toList_append, String.toList_intercalate, Function.comp_def]
    rw [htext, tree?.eq_def]
    simp [sequence?_intercalate (.inr rfl) hmembers rest]

theorem parse?_compact {depth : Nat} {j : Json} (h : Readable depth j) : parse? depth j.compact = some j := by
  have hread := tree?_compact h ends_nil
  rw [List.append_nil] at hread
  obtain ⟨c, tail, hcs, hc, -⟩ := exists_first hread
  rw [parse?, hcs, skipBlanks_cons hc, ← hcs, hread]
  rfl

end FactFold.Json
