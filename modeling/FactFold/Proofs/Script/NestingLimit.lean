import FactFold.Proofs.Results
import FactFold.Script.Parser

namespace FactFold.Script

section

variable {α β : Type} {x y : Except ParseError α}

def Limited (x y : Except ParseError α) : Prop :=
  (∃ span, x = .error ⟨.tooDeep, span⟩) ∨ x = y

theorem limited_refl (x : Except ParseError α) : Limited x x :=
  .inr rfl

theorem limited_fail (c : Cursor) (y : Except ParseError α) : Limited (c.fail .tooDeep) y :=
  .inl ⟨c.here, rfl⟩

theorem Limited.bind {f g : α → Except ParseError β} (h : Limited x y) (hfg : ∀ a, Limited (f a) (g a)) :
    Limited (x >>= f) (y >>= g) := by
  rcases h with ⟨span, rfl⟩ | rfl
  · exact .inl ⟨span, rfl⟩
  · cases x with
    | ok a => exact hfg a
    | error e => exact .inr rfl

theorem Limited.map (h : Limited x y) (f : α → β) : Limited (x.map f) (y.map f) := by
  rcases h with ⟨span, rfl⟩ | rfl
  · exact .inl ⟨span, rfl⟩
  · exact limited_refl _

theorem Limited.eq_ok {a : α} (h : Limited x y) (hx : x = .ok a) : y = .ok a := by
  rcases h with ⟨span, hspan⟩ | rfl
  · cases hspan.symm.trans hx
  · exact hx

end

theorem exists_level {depth depth' : Nat} (h : depth + 1 ≤ depth') :
    ∃ level, depth' = level + 1 ∧ depth ≤ level := by
  obtain ⟨level, rfl⟩ := Nat.exists_eq_succ_of_ne_zero (Nat.ne_zero_of_lt h)
  exact ⟨level, rfl, Nat.le_of_succ_le_succ h⟩

theorem arguments_limited {argument argument' : Cursor → Except ParseError (Expr × Cursor)}
    (ha : ∀ c, Limited (argument c) (argument' c)) (bound : List Lexeme) (c : Cursor) (done : List Expr) :
    Limited (arguments argument bound c done) (arguments argument' bound c done) := by
  induction bound generalizing c done with
  | nil =>
    unfold arguments
    split
    · exact limited_refl _
    · exact (ha c).bind fun _ => limited_refl _
  | cons l bound ih =>
    unfold arguments
    split
    · exact limited_refl _
    · refine (ha c).bind ?_
      rintro ⟨e, c₁⟩
      dsimp only
      split
      · exact limited_refl _
      · exact (limited_refl _).bind fun c₂ => ih c₂ (e :: done)

mutual

theorem expr_limited {depth depth' : Nat} (h : depth ≤ depth') (c : Cursor) :
    Limited (expr depth c) (expr depth' c) := by
  cases depth with
  | zero =>
    rw [expr]
    exact limited_fail c _
  | succ depth =>
    obtain ⟨depth', rfl, hle⟩ := exists_level h
    rw [expr, expr]
    refine (operators_limited hle 0 c).bind ?_
    rintro ⟨condition, c₁⟩
    dsimp only
    split
    · refine (expr_limited hle c₁.next).bind ?_
      rintro ⟨yes, c₂⟩
      refine (limited_refl _).bind fun c₃ => (expr_limited hle c₃).bind ?_
      rintro ⟨no, c₄⟩
      exact limited_refl _
    · exact limited_refl _
termination_by (depth, 0)

theorem operators_limited {depth depth' : Nat} (h : depth ≤ depth') (level : Nat) (c : Cursor) :
    Limited (operators depth level c) (operators depth' level c) := by
  rw [operators, operators]
  refine (operand_limited h c).bind ?_
  rintro ⟨left, c₁⟩
  exact joined_limited h level _ left c₁
termination_by (depth, 4)

theorem joined_limited {depth depth' : Nat} (h : depth ≤ depth') (level start : Nat) (left : Expr) (c : Cursor) :
    Limited (joined depth level start left c) (joined depth' level start left c) := by
  rw [joined.eq_def, joined.eq_def depth']
  split
  · exact limited_refl _
  · split
    · exact limited_refl _
    · cases depth with
      | zero => exact limited_fail c _
      | succ depth =>
        obtain ⟨depth', rfl, hle⟩ := exists_level h
        refine (operators_limited hle _ c.next).bind ?_
        rintro ⟨right, c₁⟩
        exact joined_limited hle level start _ c₁
termination_by (depth, 0)

theorem operand_limited {depth depth' : Nat} (h : depth ≤ depth') (c : Cursor) :
    Limited (operand depth c) (operand depth' c) := by
  rw [operand.eq_def, operand.eq_def depth']
  split
  · exact primary_limited h c
  · cases depth with
    | zero => exact limited_fail c _
    | succ depth =>
      obtain ⟨depth', rfl, hle⟩ := exists_level h
      exact (operand_limited hle c.next).bind fun _ => limited_refl _
termination_by (depth, 3)

theorem primary_limited {depth depth' : Nat} (h : depth ≤ depth') (c : Cursor) :
    Limited (primary depth c) (primary depth' c) := by
  rw [primary, primary]
  refine (atom_limited h c).bind ?_
  rintro ⟨e, c₁⟩
  exact chain_limited h _ e c₁
termination_by (depth, 2)

theorem chain_limited {depth depth' : Nat} (h : depth ≤ depth') (start : Nat) (e : Expr) (c : Cursor) :
    Limited (chain depth start e c) (chain depth' start e c) := by
  rw [chain.eq_def, chain.eq_def depth']
  split
  · cases depth with
    | zero => exact limited_fail c _
    | succ depth =>
      obtain ⟨depth', rfl, hle⟩ := exists_level h
      refine (limited_refl _).bind ?_
      rintro ⟨name, c₁⟩
      exact chain_limited hle start _ c₁
  · split
    · cases hpath : e.path? with
      -- what is no path is refused before the limit is looked at
      | none => exact limited_refl _
      | some function =>
        cases depth with
        | zero => exact limited_fail c _
        | succ depth =>
          obtain ⟨depth', rfl, hle⟩ := exists_level h
          refine (arguments_limited (expr_limited hle) _ c.next []).bind ?_
          rintro ⟨args, c₁⟩
          exact chain_limited hle start _ c₁
    · exact limited_refl _
termination_by (depth, 0)

theorem atom_limited {depth depth' : Nat} (h : depth ≤ depth') (c : Cursor) :
    Limited (atom depth c) (atom depth' c) := by
  rw [atom, atom]
  split
  · exact limited_refl _
  · exact (expr_limited h c.next).bind fun _ => limited_refl _
  · exact limited_refl _
termination_by (depth, 1)

end

theorem parseExpr_limited {depth depth' : Nat} (h : depth ≤ depth') (ls : List Lexeme) :
    Limited (parseExpr depth ls) (parseExpr depth' ls) :=
  (expr_limited h (.atStart ls)).bind fun _ => limited_refl _

section

variable {depth depth' : Nat} (h : depth ≤ depth')

include h

theorem declaration_limited (start : Nat) (type : Option String) (place : Place) (c : Cursor) :
    Limited (declaration depth start type place c) (declaration depth' start type place c) := by
  refine (limited_refl _).bind ?_
  rintro ⟨name, c₁⟩
  refine Limited.bind ?_ fun _ => limited_refl _
  unfold initialValue
  split
  · exact (expr_limited h c₁.next).map _
  · exact limited_refl _

theorem assignment_limited (start : Nat) (target : String) (op : AssignOp) (c : Cursor) :
    Limited (assignment depth start target op c) (assignment depth' start target op c) :=
  (expr_limited h c).bind fun _ => limited_refl _

theorem returned_limited (c : Cursor) : Limited (returned depth c) (returned depth' c) := by
  unfold returned
  split
  · exact limited_refl _
  · exact (expr_limited h c).bind fun _ => limited_refl _

theorem simpleStatement_limited (c : Cursor) : Limited (simpleStatement depth c) (simpleStatement depth' c) := by
  unfold simpleStatement
  dsimp only
  split
  · exact declaration_limited h ..
  · exact returned_limited h _
  · exact assignment_limited h ..
  · exact assignment_limited h ..
  · exact assignment_limited h ..
  · exact declaration_limited h ..
  · exact declaration_limited h ..
  · exact (expr_limited h c).bind fun _ => limited_refl _

end

mutual

theorem statement_limited {depth depth' : Nat} (h : depth ≤ depth') (c : Cursor) :
    Limited (statement depth c) (statement depth' c) := by
  rw [statement, statement]
  split
  · refine (limited_refl _).bind fun c₁ => (expr_limited h c₁).bind ?_
    rintro ⟨condition, c₂⟩
    refine (limited_refl _).bind fun c₃ => (body_limited h c₃).bind ?_
    rintro ⟨yes, c₄⟩
    dsimp only
    split
    · exact (body_limited h c₄.next).bind fun _ => limited_refl _
    · exact limited_refl _
  · exact simpleStatement_limited h c
termination_by (depth, 2, 0)

theorem body_limited {depth depth' : Nat} (h : depth ≤ depth') (c : Cursor) :
    Limited (body depth c) (body depth' c) := by
  cases depth with
  | zero =>
    rw [body]
    exact limited_fail c _
  | succ depth =>
    obtain ⟨depth', rfl, hle⟩ := exists_level h
    rw [body, body]
    split
    · exact block_limited hle _ c.next []
    · exact (statement_limited hle c).map _
termination_by (depth, 1, 0)

theorem block_limited {depth depth' : Nat} (h : depth ≤ depth') (bound : List Lexeme) (c : Cursor)
    (done : List Stmt) : Limited (block depth bound c done) (block depth' bound c done) := by
  rw [block.eq_def, block.eq_def depth']
  split
  · exact limited_refl _
  · split
    · exact limited_refl _
    · exact limited_refl _
    · split
      · exact block_limited h _ c.next done
      · refine (statement_limited h c).bind ?_
        rintro ⟨s, c₁⟩
        exact block_limited h _ c₁ (s :: done)
termination_by (depth, 3, bound.length)

end

theorem statements_limited {depth depth' : Nat} (h : depth ≤ depth') (bound : List Lexeme) (c : Cursor)
    (done : List Stmt) : Limited (statements depth bound c done) (statements depth' bound c done) := by
  unfold statements
  split
  · exact limited_refl _
  · exact limited_refl _
  · split
    · exact statements_limited h _ c.next done
    · refine (statement_limited h c).bind ?_
      rintro ⟨s, c₁⟩
      exact statements_limited h _ c₁ (s :: done)
termination_by bound.length

theorem parseScript_limited {depth depth' : Nat} (h : depth ≤ depth') (ls : List Lexeme) :
    Limited (parseScript depth ls) (parseScript depth' ls) :=
  statements_limited h ls (.atStart ls) []

theorem nesting_limit_only_refuses {depth depth' : Nat} (h : depth ≤ depth') (ls : List Lexeme) :
    ((∃ span, parseScript depth ls = .error ⟨.tooDeep, span⟩) ∨ parseScript depth ls = parseScript depth' ls) ∧
      ∀ ss, parseScript depth ls = .ok ss → parseScript depth' ls = .ok ss :=
  ⟨parseScript_limited h ls, fun _ => (parseScript_limited h ls).eq_ok⟩

-- The lexemes of `-a.b`.
def negatedField : List Lexeme :=
  [⟨.fixed .minus, ⟨0, 1⟩⟩, ⟨.name "a", ⟨1, 2⟩⟩, ⟨.fixed .dot, ⟨2, 3⟩⟩, ⟨.name "b", ⟨3, 4⟩⟩]

theorem nesting_limit_only_refuses_field :
    parseScript 2 negatedField = .error ⟨.tooDeep, ⟨2, 3⟩⟩ ∧ 2 ≤ 3 ∧
      ((∃ span, parseScript 2 negatedField = .error ⟨.tooDeep, span⟩) ∨
        parseScript 2 negatedField = parseScript 3 negatedField) ∧
      parseScript 3 negatedField =
        .ok [.expr (.unary .neg (.field (.name "a" ⟨1, 2⟩) "b" ⟨1, 4⟩) ⟨0, 4⟩)] ∧ 3 ≤ 256 ∧
      parseScript 256 negatedField =
        .ok [.expr (.unary .neg (.field (.name "a" ⟨1, 2⟩) "b" ⟨1, 4⟩) ⟨0, 4⟩)] := by
  have h₂ : parseScript 2 negatedField = .error ⟨.tooDeep, ⟨2, 3⟩⟩ := by cbv
  have h₃ : parseScript 3 negatedField =
      .ok [.expr (.unary .neg (.field (.name "a" ⟨1, 2⟩) "b" ⟨1, 4⟩) ⟨0, 4⟩)] := by cbv
  exact ⟨h₂, by decide, (nesting_limit_only_refuses (by decide) negatedField).1, h₃, by decide,
    (nesting_limit_only_refuses (by decide) negatedField).2 _ h₃⟩

end FactFold.Script
