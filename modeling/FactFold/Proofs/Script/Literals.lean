import FactFold.Proofs.Script.Evaluation

namespace FactFold.Script

namespace Compiler

variable (c : Compiler)

def nameLiterals (declared : List String) (name : String) : List Value :=
  match c.symbols.input name with
  | some _ => []
  | none => if name ∈ declared then [] else (c.symbols.constant name).toList

mutual

def exprLiterals (declared : List String) : Expr → List Value
  | .literal l _ => [l.value]
  | .name n _ => c.nameLiterals declared n
  | .field object name span =>
    match c.pathConstant? declared (.field object name span) with
    | some v => [v]
    | none => exprLiterals declared object
  | .call _ args _ => argLiterals declared args
  | .unary _ operand _ => exprLiterals declared operand
  | .binary (.strict _) left right _ => exprLiterals declared left ++ exprLiterals declared right
  -- the results stand where the code comes to need them
  | .binary .and left right _ =>
    exprLiterals declared left ++ exprLiterals declared right ++ [.bool true, .bool false]
  | .binary .or left right _ =>
    exprLiterals declared left ++ [.bool true] ++ exprLiterals declared right ++ [.bool true, .bool false]
  | .conditional condition yes no _ =>
    exprLiterals declared condition ++ exprLiterals declared yes ++ exprLiterals declared no
termination_by structural e => e

def argLiterals (declared : List String) : List Expr → List Value
  | [] => []
  | e :: rest => exprLiterals declared e ++ argLiterals declared rest
termination_by structural es => es

end

def initialLiterals (declared : List String) : Option Expr → List Value
  | some value => c.exprLiterals declared value
  | none => [.null]

mutual

def stmtLiterals (declared : List String) : Stmt → List Value
  | .expr e => c.exprLiterals declared e
  | .assign _ .set value _ => c.exprLiterals declared value
  | .assign target (.update _) value _ => c.nameLiterals declared target ++ c.exprLiterals declared value
  | .declare _ _ value _ => c.initialLiterals declared value
  | .branch condition yes none => c.exprLiterals declared condition ++ literals declared yes
  | .branch condition yes (some no) =>
    c.exprLiterals declared condition ++ literals declared yes ++ literals (declaringAll declared yes) no
  | .ret (some value) => c.exprLiterals declared value
  | .ret none => []
termination_by structural s => s

def literals (declared : List String) : List Stmt → List Value
  | [] => []
  | s :: rest => stmtLiterals declared s ++ literals (s.declaring declared) rest
termination_by structural ss => ss

end

end Compiler

theorem getElem?_extended {α : Type} {table table' : List α} {item : α} {i : Nat} (h : table <+: table')
    (hi : table[i]? = some item) : table'[i]? = some item := by
  obtain ⟨more, rfl⟩ := h
  rw [List.getElem?_append_left (List.getElem?_eq_some_iff.1 hi).1, hi]

section

variable {α : Type} [BEq α] {kind : TableKind} {table table' : List α} {item entry : α} {i : UInt16}

def interned (table : List α) (item : α) : List α :=
  if table.any (· == item) then table else table ++ [item]

theorem interned_of_some {j : Nat} (h : table.findIdx? (· == item) = some j) : interned table item = table := by
  have hany : table.any (· == item) = true := by
    rw [← List.findIdx?_isSome, h]
    rfl
  rw [interned, if_pos hany]

theorem interned_of_none (h : table.findIdx? (· == item) = none) : interned table item = table ++ [item] := by
  have hany : ¬ table.any (· == item) = true := by
    rw [← List.findIdx?_isSome, h]
    simp
  rw [interned, if_neg hany]

theorem prefix_interned (table : List α) (item : α) : table <+: interned table item := by
  unfold interned
  split
  · exact List.prefix_refl _
  · exact List.prefix_append _ _

theorem mem_interned (h : entry ∈ interned table item) : entry ∈ table ∨ entry = item := by
  unfold interned at h
  split at h
  · exact .inl h
  · simpa using h

theorem mem_foldl_interned {items : List α} (h : entry ∈ items.foldl interned table) :
    entry ∈ table ∨ entry ∈ items := by
  induction items generalizing table with
  | nil => exact .inl h
  | cons item items ih =>
    rcases ih h with h | h
    · rcases mem_interned h with h | rfl
      · exact .inl h
      · exact .inr (List.mem_cons_self ..)
    · exact .inr (List.mem_cons_of_mem _ h)

/-- The index stands for the item: it is that of the first entry equal to the item, or that of the item
itself if the item is not even equal to itself. -/
def Denotes (table : List α) (item : α) (i : UInt16) : Prop :=
  table.findIdx? (· == item) = some i.toNat ∨ (item == item) = false ∧ table[i.toNat]? = some item

theorem Denotes.mono (h : Denotes table item i) (ht : table <+: table') : Denotes table' item i := by
  rcases h with h | ⟨hi, h⟩
  · exact .inl (ht.findIdx?_eq_some h)
  · exact .inr ⟨hi, getElem?_extended ht h⟩

theorem Denotes.exists_entry (h : Denotes table item i) :
    ∃ entry, table[i.toNat]? = some entry ∧ entry ∈ table ∧ (entry == item ∨ entry = item) := by
  rcases h with h | ⟨-, h⟩
  · obtain ⟨hlt, he, -⟩ := List.findIdx?_eq_some_iff_getElem.1 h
    exact ⟨table[i.toNat], List.getElem?_eq_getElem hlt, List.getElem_mem hlt, .inl he⟩
  · exact ⟨item, h, List.mem_of_getElem? h, .inr rfl⟩

theorem Denotes.getElem? [LawfulBEq α] (h : Denotes table item i) : table[i.toNat]? = some item := by
  obtain ⟨entry, he, -, hi⟩ := h.exists_entry
  simpa using he.trans (congrArg some (hi.elim eq_of_beq id))

theorem index16_eq_ok {limit : CodeLimit} {n : Nat} (h : index16 limit n = .ok i) : i.toNat = n := by
  unfold index16 at h
  split at h
  · next hn =>
    cases h
    exact UInt16.toNat_ofNat_of_lt hn
  · cases h

theorem intern_cases (h : intern kind table item = .ok (i, table')) :
    table.findIdx? (· == item) = some i.toNat ∧ table' = table ∨
      table.findIdx? (· == item) = none ∧ i.toNat = table.length ∧ table' = table ++ [item] := by
  unfold intern at h
  split at h
  · next j hj =>
    cases hi : index16 (.table kind) j with
    | error e => simp [hi, Except.map] at h
    | ok k =>
      simp only [hi, Except.map, Except.ok.injEq, Prod.mk.injEq] at h
      obtain ⟨rfl, rfl⟩ := h
      exact .inl ⟨by rw [hj, index16_eq_ok hi], rfl⟩
  · next hj =>
    cases hi : index16 (.table kind) table.length with
    | error e => simp [hi, Except.map] at h
    | ok k =>
      simp only [hi, Except.map, Except.ok.injEq, Prod.mk.injEq] at h
      obtain ⟨rfl, rfl⟩ := h
      exact .inr ⟨hj, index16_eq_ok hi, rfl⟩

theorem intern_eq_ok (h : intern kind table item = .ok (i, table')) :
    table' = interned table item ∧ Denotes table' item i := by
  rcases intern_cases h with ⟨hj, rfl⟩ | ⟨hj, hi, rfl⟩
  · exact ⟨(interned_of_some hj).symm, .inl hj⟩
  · refine ⟨(interned_of_none hj).symm, ?_⟩
    -- an item that is not equal to itself is not found again, but it stands at its index
    by_cases hr : (item == item) = true
    · exact .inl (by simp [List.findIdx?_append, hj, hr, hi])
    · exact .inr ⟨by simpa using hr, by simp [hi]⟩

theorem intern_place (h : intern kind table item = .ok (i, table')) :
    i.toNat < table.length ∧ table' = table ∨ i.toNat = table.length ∧ table' = table ++ [item] := by
  rcases intern_cases h with ⟨hj, ht⟩ | ⟨-, hi⟩
  · obtain ⟨hlt, -⟩ := List.findIdx?_eq_some_iff_getElem.1 hj
    exact .inl ⟨hlt, ht⟩
  · exact .inr hi

theorem interned_limit (h : intern kind table item = .ok (i, table')) (hlimit : table.length ≤ UInt16.size) :
    table'.length ≤ UInt16.size := by
  rcases intern_place h with ⟨-, rfl⟩ | ⟨hi, rfl⟩
  · exact hlimit
  · have hlt := i.toNat_lt_size
    simp only [List.length_append, List.length_singleton]
    omega

variable [LawfulBEq α]

theorem mem_interned_self (table : List α) (item : α) : item ∈ interned table item := by
  unfold interned
  split
  · next hany => simpa using hany
  · simp

theorem nodup_interned (h : table.Nodup) (item : α) : (interned table item).Nodup := by
  unfold interned
  split
  · exact h
  · next hany =>
    have hitem : item ∉ table := by simpa using hany
    simpa [List.nodup_append] using ⟨h, fun a ha he => hitem (he ▸ ha)⟩

theorem interned_subset (h : table ⊆ table') (item : α) : interned table item ⊆ interned table' item := by
  intro a ha
  rcases mem_interned ha with ha | rfl
  · exact (prefix_interned table' item).subset (h ha)
  · exact mem_interned_self table' a

theorem exists_intern (kind : TableKind) (h : (interned table item).length ≤ UInt16.size) :
    ∃ i, intern kind table item = .ok (i, interned table item) ∧ (interned table item)[i.toNat]? = some item := by
  have hindex : ∃ i, intern kind table item = .ok (i, interned table item) := by
    unfold intern
    cases hfind : table.findIdx? (· == item) with
    | some j =>
      rw [interned_of_some hfind] at h ⊢
      obtain ⟨hlt, -⟩ := List.findIdx?_eq_some_iff_getElem.1 hfind
      simp only [index16, if_pos (Nat.lt_of_lt_of_le hlt h)]
      exact ⟨_, rfl⟩
    | none =>
      rw [interned_of_none hfind] at h ⊢
      rw [List.length_append, List.length_singleton] at h
      simp only [index16, if_pos (Nat.lt_of_succ_le h)]
      exact ⟨_, rfl⟩
  obtain ⟨i, hi⟩ := hindex
  exact ⟨i, hi, (intern_eq_ok hi).2.getElem?⟩

end

end FactFold.Script
