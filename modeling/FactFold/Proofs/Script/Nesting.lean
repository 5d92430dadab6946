import FactFold.Proofs.Script.Grammar.Expressions

/-!
A level of nesting is given back once the operand that it was taken for has been read. The operators and
fields behind the operand may take it again, and then the operand stands below them. So a limit of `depth`
levels lets trees grow as high as `depth * depth + 1`, and no higher.
-/

namespace FactFold.Script

open Grammar

mutual

def Expr.height : Expr → Nat
  | .literal _ _ => 1
  | .name _ _ => 1
  | .field object _ _ => object.height + 1
  | .call _ args _ => argsHeight args + 1
  | .unary _ operand _ => operand.height + 1
  | .binary _ left right _ => max left.height right.height + 1
  | .conditional condition yes no _ => max condition.height (max yes.height no.height) + 1
termination_by structural e => e

def argsHeight : List Expr → Nat
  | [] => 0
  | e :: rest => max e.height (argsHeight rest)
termination_by structural es => es

end

mutual

def Stmt.height : Stmt → Nat
  | .expr e => e.height + 1
  | .assign _ _ value _ => value.height + 1
  | .declare _ _ none _ => 1
  | .declare _ _ (some value) _ => value.height + 1
  | .branch condition yes none => max condition.height (blockHeight yes) + 1
  | .branch condition yes (some no) => max condition.height (max (blockHeight yes) (blockHeight no)) + 1
  | .ret none => 1
  | .ret (some value) => value.height + 1
termination_by structural s => s

def blockHeight : List Stmt → Nat
  | [] => 0
  | s :: rest => max s.height (blockHeight rest)
termination_by structural ss => ss

end

theorem argsHeight_le {es : List Expr} {n : Nat} : argsHeight es ≤ n ↔ ∀ e ∈ es, e.height ≤ n := by
  induction es with
  | nil => simp [argsHeight]
  | cons e es ih => simp [argsHeight, ih]

theorem blockHeight_le {ss : List Stmt} {n : Nat} : blockHeight ss ≤ n ↔ ∀ s ∈ ss, s.height ≤ n := by
  induction ss with
  | nil => simp [blockHeight]
  | cons s ss ih => simp [blockHeight, ih]

theorem Expr.height_pos (e : Expr) : 0 < e.height := by
  cases e <;> exact Nat.succ_pos _

theorem Expr.height_withSpan (e : Expr) (span : Span) : (e.withSpan span).height = e.height := by
  cases e <;> rfl

theorem Expr.height_signed_le (op : UnaryOp) (e : Expr) (span : Span) :
    (Expr.signed op e span).height ≤ e.height + 1 := by
  unfold Expr.signed
  split
  · exact Nat.le_succ _
  · exact Nat.le_succ _
  · exact Nat.le_refl _

/-! ## No tree is higher -/

def operandHeight (depth : Nat) : Nat :=
  max 1 (depth * depth)

theorem operandHeight_of_pos {depth : Nat} (h : 0 < depth) : operandHeight depth = depth * depth :=
  Nat.max_eq_right (Nat.mul_pos h h)

theorem operandHeight_succ (depth : Nat) : operandHeight depth + 2 * depth ≤ operandHeight (depth + 1) := by
  have hsquare : (depth + 1) * (depth + 1) = depth * depth + 2 * depth + 1 := by ring
  rw [operandHeight_of_pos depth.add_one_pos, operandHeight]
  omega

theorem arguments_height {argument : Cursor → Except ParseError (Expr × Cursor)} {n : Nat}
    (ha : ∀ c e c', argument c = .ok (e, c') → e.height ≤ n) {bound : List Lexeme} {c c' : Cursor}
    {done args : List Expr} (hdone : ∀ e ∈ done, e.height ≤ n)
    (h : arguments argument bound c done = .ok (args, c')) : argsHeight args ≤ n := by
  rw [argsHeight_le]
  unfold arguments at h
  split at h
  · cases h
    simpa using hdone
  · obtain ⟨⟨e, c₁⟩, h₁, h⟩ := bind_eq_ok.mp h
    have hdone' : ∀ e' ∈ e :: done, e'.height ≤ n := by simpa using ⟨ha _ _ _ h₁, hdone⟩
    dsimp only at h
    split at h
    · cases h
      simpa only [List.mem_reverse] using hdone'
    · obtain ⟨c₂, h₂, h⟩ := bind_eq_ok.mp h
      cases bound with
      | nil => cases h
      | cons l bound => exact argsHeight_le.1 (arguments_height ha hdone' h)
termination_by structural bound

mutual

theorem expr_height {depth : Nat} {c c' : Cursor} {e : Expr} (h : expr depth c = .ok (e, c')) :
    0 < depth ∧ e.height ≤ depth * depth := by
  cases depth with
  | zero =>
    rw [expr] at h
    cases h
  | succ depth =>
    refine ⟨Nat.succ_pos _, ?_⟩
    simp only [expr] at h
    obtain ⟨⟨condition, c₁⟩, h₁, h⟩ := bind_eq_ok.mp h
    have hcondition : condition.height ≤ 2 * depth + operandHeight depth := operators_height h₁
    dsimp only at h
    split at h
    · obtain ⟨⟨yes, c₂⟩, h₂, h⟩ := bind_eq_ok.mp h
      obtain ⟨c₃, h₃, h⟩ := bind_eq_ok.mp h
      obtain ⟨⟨no, c₄⟩, h₄, h⟩ := bind_eq_ok.mp h
      obtain ⟨hpos, hyes⟩ : 0 < depth ∧ yes.height ≤ depth * depth := expr_height h₂
      have hno : no.height ≤ depth * depth := (expr_height h₄).2
      have hsquare : (depth + 1) * (depth + 1) = depth * depth + 2 * depth + 1 := by ring
      rw [operandHeight_of_pos hpos] at hcondition
      cases h
      simp only [Expr.height]
      omega
    · have hsucc := operandHeight_succ depth
      rw [operandHeight_of_pos depth.add_one_pos] at hsucc
      cases h
      omega
termination_by (depth, 0)

theorem operators_height {depth level : Nat} {c c' : Cursor} {e : Expr}
    (h : operators depth level c = .ok (e, c')) : e.height ≤ 2 * depth + operandHeight depth := by
  simp only [operators] at h
  obtain ⟨⟨left, c₁⟩, h₁, h⟩ := bind_eq_ok.mp h
  have hleft : left.height ≤ depth + operandHeight depth := operand_height h₁
  dsimp only at h
  exact joined_height (by omega) (Nat.le_refl _) h
termination_by (depth, 4)

theorem joined_height {depth level start n : Nat} {left e : Expr} {c c' : Cursor}
    (hl : left.height + depth ≤ n) (hn : 2 * depth + operandHeight depth ≤ n)
    (h : joined depth level start left c = .ok (e, c')) : e.height ≤ n := by
  rw [joined.eq_def] at h
  split at h
  · cases h
    omega
  · split at h
    · cases h
      omega
    · cases depth with
      | zero => cases h
      | succ depth =>
        obtain ⟨⟨right, c₁⟩, h₁, h⟩ := bind_eq_ok.mp h
        have hright : right.height ≤ 2 * depth + operandHeight depth := operators_height h₁
        have hsucc := operandHeight_succ depth
        refine joined_height ?_ (by omega) h
        rw [Expr.height]
        omega
termination_by (depth, 0)

theorem operand_height {depth : Nat} {c c' : Cursor} {e : Expr} (h : operand depth c = .ok (e, c')) :
    e.height ≤ depth + operandHeight depth := by
  rw [operand] at h
  split at h
  · exact primary_height h
  · cases depth with
    | zero => cases h
    | succ depth =>
      obtain ⟨⟨e', c₁⟩, h₁, h⟩ := bind_eq_ok.mp h
      have he' := operand_height h₁
      have hsigned := e'.height_signed_le ‹_› (c₁.since c.here.start)
      have hsucc := operandHeight_succ depth
      cases h
      omega
termination_by (depth, 3)

theorem primary_height {depth : Nat} {c c' : Cursor} {e : Expr} (h : primary depth c = .ok (e, c')) :
    e.height ≤ depth + operandHeight depth := by
  simp only [primary] at h
  obtain ⟨⟨e', c₁⟩, h₁, h⟩ := bind_eq_ok.mp h
  have he' : e'.height ≤ operandHeight depth := atom_height h₁
  dsimp only at h
  exact chain_height (by omega) (Nat.le_refl _) h
termination_by (depth, 2)

theorem chain_height {depth start n : Nat} {e e' : Expr} {c c' : Cursor} (he : e.height + depth ≤ n)
    (hn : depth + operandHeight depth ≤ n) (h : chain depth start e c = .ok (e', c')) : e'.height ≤ n := by
  rw [chain.eq_def] at h
  split at h
  · cases depth with
    | zero => cases h
    | succ depth =>
      obtain ⟨⟨name, c₁⟩, h₁, h⟩ := bind_eq_ok.mp h
      have hsucc := operandHeight_succ depth
      refine chain_height ?_ (by omega) h
      rw [Expr.height]
      omega
  · split at h
    · split at h
      · cases h
      · cases h
      · rename_i function depth hfunction
        obtain ⟨⟨args, c₁⟩, h₁, h⟩ := bind_eq_ok.mp h
        have hargs : argsHeight args ≤ operandHeight depth :=
          arguments_height (fun _ _ _ hx => (expr_height hx).2.trans (Nat.le_max_right ..)) (by simp) h₁
        have hsucc : operandHeight depth + 2 * depth ≤ operandHeight depth.succ := operandHeight_succ depth
        refine chain_height ?_ (by omega) h
        rw [Expr.height]
        omega
    · cases h
      omega
termination_by (depth, 0)

theorem atom_height {depth : Nat} {c c' : Cursor} {e : Expr} (h : atom depth c = .ok (e, c')) :
    e.height ≤ operandHeight depth := by
  simp only [atom] at h
  split at h
  · cases h
    exact Nat.le_max_left ..
  · obtain ⟨⟨e', c₁⟩, h₁, h⟩ := bind_eq_ok.mp h
    obtain ⟨c₂, h₂, h⟩ := bind_eq_ok.mp h
    cases h
    rw [Expr.height_withSpan]
    exact (expr_height h₁).2.trans (Nat.le_max_right ..)
  · split at h
    · cases h
      exact Nat.le_max_left ..
    · cases h
termination_by (depth, 1)

end

theorem declaration_height {depth start : Nat} {type : Option String} {place : Place} {s : Stmt} {c c' : Cursor}
    (h : declaration depth start type place c = .ok (s, c')) : s.height ≤ depth * depth + 1 := by
  obtain ⟨⟨name, c₁⟩, h₁, h⟩ := bind_eq_ok.mp h
  obtain ⟨⟨value, c₂⟩, h₂, h⟩ := bind_eq_ok.mp h
  obtain ⟨c₃, h₃, h⟩ := bind_eq_ok.mp h
  cases h
  unfold initialValue at h₂
  split at h₂
  · obtain ⟨⟨e, c₄⟩, h₄, heq⟩ := map_eq_ok.mp h₂
    cases heq
    exact Nat.succ_le_succ (expr_height h₄).2
  · cases h₂
    exact Nat.le_add_left ..

theorem assignment_height {depth start : Nat} {target : String} {op : AssignOp} {s : Stmt} {c c' : Cursor}
    (h : assignment depth start target op c = .ok (s, c')) : s.height ≤ depth * depth + 1 := by
  obtain ⟨⟨e, c₁⟩, h₁, h⟩ := bind_eq_ok.mp h
  obtain ⟨c₂, h₂, h⟩ := bind_eq_ok.mp h
  cases h
  exact Nat.succ_le_succ (expr_height h₁).2

theorem returned_height {depth : Nat} {s : Stmt} {c c' : Cursor} (h : returned depth c = .ok (s, c')) :
    s.height ≤ depth * depth + 1 := by
  unfold returned at h
  split at h
  · obtain ⟨c₁, h₁, h⟩ := bind_eq_ok.mp h
    cases h
    exact Nat.le_add_left ..
  · obtain ⟨⟨e, c₁⟩, h₁, h⟩ := bind_eq_ok.mp h
    obtain ⟨c₂, h₂, h⟩ := bind_eq_ok.mp h
    cases h
    exact Nat.succ_le_succ (expr_height h₁).2

theorem simpleStatement_height {depth : Nat} {s : Stmt} {c c' : Cursor}
    (h : simpleStatement depth c = .ok (s, c')) : s.height ≤ depth * depth + 1 := by
  simp only [simpleStatement] at h
  split at h
  · exact declaration_height h
  · exact returned_height h
  · exact assignment_height h
  · exact assignment_height h
  · exact assignment_height h
  · exact declaration_height h
  · exact declaration_height h
  · obtain ⟨⟨e, c₁⟩, h₁, h⟩ := bind_eq_ok.mp h
    obtain ⟨c₂, h₂, h⟩ := bind_eq_ok.mp h
    cases h
    exact Nat.succ_le_succ (expr_height h₁).2

mutual

theorem statement_height {depth : Nat} {s : Stmt} {c c' : Cursor} (h : statement depth c = .ok (s, c')) :
    s.height ≤ depth * depth + 1 := by
  rw [statement] at h
  split at h
  · obtain ⟨c₁, h₁, h⟩ := bind_eq_ok.mp h
    obtain ⟨⟨condition, c₂⟩, h₂, h⟩ := bind_eq_ok.mp h
    obtain ⟨c₃, h₃, h⟩ := bind_eq_ok.mp h
    obtain ⟨⟨yes, c₄⟩, h₄, h⟩ := bind_eq_ok.mp h
    have hcondition := (expr_height h₂).2
    have hyes := blockHeight_le.2 (body_height h₄)
    dsimp only at h
    split at h
    · obtain ⟨⟨no, c₅⟩, h₅, h⟩ := bind_eq_ok.mp h
      have hno := blockHeight_le.2 (body_height h₅)
      cases h
      exact Nat.succ_le_succ (Nat.max_le.2 ⟨hcondition, Nat.max_le.2 ⟨hyes, hno⟩⟩)
    · cases h
      exact Nat.succ_le_succ (Nat.max_le.2 ⟨hcondition, hyes⟩)
  · exact simpleStatement_height h
termination_by (depth, 2, 0)

theorem body_height {depth : Nat} {ss : List Stmt} {c c' : Cursor} (h : body depth c = .ok (ss, c')) :
    ∀ s ∈ ss, s.height ≤ depth * depth := by
  cases depth with
  | zero =>
    rw [body] at h
    cases h
  | succ depth =>
    have hlower : depth * depth < (depth + 1) * (depth + 1) := Nat.mul_self_lt_mul_self depth.lt_succ_self
    rw [body] at h
    split at h
    · exact fun s hs => (block_height (by simp) h s hs).trans hlower
    · obtain ⟨⟨s, c₁⟩, h₁, heq⟩ := map_eq_ok.mp h
      cases heq
      simpa using (statement_height h₁).trans hlower
termination_by (depth, 1, 0)

theorem block_height {depth : Nat} {bound : List Lexeme} {done ss : List Stmt} {c c' : Cursor}
    (hdone : ∀ s ∈ done, s.height ≤ depth * depth + 1) (h : block depth bound c done = .ok (ss, c')) :
    ∀ s ∈ ss, s.height ≤ depth * depth + 1 := by
  rw [block.eq_def] at h
  split at h
  · cases h
    simpa using hdone
  · split at h
    · cases h
    · cases h
    · split at h
      · exact block_height hdone h
      · obtain ⟨⟨s, c₁⟩, h₁, h⟩ := bind_eq_ok.mp h
        exact block_height (by simpa using ⟨statement_height h₁, hdone⟩) h
termination_by (depth, 3, bound.length)

end

theorem statements_height {depth : Nat} {bound : List Lexeme} {done ss : List Stmt} {c : Cursor}
    (hdone : ∀ s ∈ done, s.height ≤ depth * depth + 1) (h : statements depth bound c done = .ok ss) :
    ∀ s ∈ ss, s.height ≤ depth * depth + 1 := by
  unfold statements at h
  split at h
  · cases h
    simpa using hdone
  · cases h
  · split at h
    · exact statements_height hdone h
    · obtain ⟨⟨s, c₁⟩, h₁, h⟩ := bind_eq_ok.mp h
      exact statements_height (by simpa using ⟨statement_height h₁, hdone⟩) h
termination_by bound.length

theorem parseScript_height {depth : Nat} {ls : List Lexeme} {ss : List Stmt} (h : parseScript depth ls = .ok ss) :
    blockHeight ss ≤ depth * depth + 1 :=
  blockHeight_le.2 (statements_height (by simp) h)

/-! ## Trees as high as that -/

def fieldTokens (n : Nat) : List Token :=
  (List.replicate n [.fixed .dot, .name "x"]).flatten

def sumTokens (n : Nat) : List Token :=
  (List.replicate n [.fixed .plus, .name "x"]).flatten

def choiceTokens : List Token :=
  [.fixed .question, .name "x", .fixed .colon, .name "x"]

/-- An expression for `n + 1` levels of nesting. The parentheses give back what the one inside has taken, and
the fields and the sums behind them take it twice more. -/
def towerTokens : Nat → List Token
  | 0 => [.name "x"]
  | n + 1 =>
    .fixed .leftParen :: (towerTokens n ++ .fixed .rightParen ::
      (fieldTokens (n + 1) ++ (sumTokens (n + 1) ++ choiceTokens)))

theorem atom_name {depth : Nat} {n : String} {us : List Token} {c : Cursor} (ht : c.tokens = .name n :: us) :
    atom depth c = .ok (.name n (c.next.since c.here.start), c.next) := by
  simp [atom, Cursor.peek?_eq, ht]

theorem operand_primary {depth : Nat} {c : Cursor} (h : c.tokens.head?.bind Token.sign? = none) :
    operand depth c = primary depth c := by
  rw [operand.eq_def, Cursor.peek?_eq, h]

theorem operators_name (depth : Nat) {level : Nat} {n : String} {us : List Token} {c : Cursor}
    (ht : c.tokens = .name n :: us) (ha : Apart us) (hb : Below level us) :
    operators depth level c = .ok (.name n (c.next.since c.here.start), c.next) := by
  have hnext := Cursor.tokens_next ht
  rw [operators, operand_primary (by rw [ht]; rfl), primary, atom_name ht]
  simp only [ok_bind, chain_done (hnext ▸ ha), joined_done (hnext ▸ hb)]

theorem expr_name (depth : Nat) {n : String} {us : List Token} {c : Cursor} (ht : c.tokens = .name n :: us)
    (hu : Ends us) : expr (depth + 1) c = .ok (.name n (c.next.since c.here.start), c.next) := by
  have hq : c.next.isAt .question = false := Cursor.isAt_false (Cursor.tokens_next ht ▸ hu.question)
  simp only [expr, operators_name _ ht hu.toApart hu.operator, ok_bind, hq]
  rfl

theorem chain_fields (start : Nat) {n depth : Nat} {us : List Token} {e : Expr} {c : Cursor} (hn : n ≤ depth)
    (ht : c.tokens = fieldTokens n ++ us) (ha : Apart us) :
    ∃ e' c', chain depth start e c = .ok (e', c') ∧ c'.tokens = us ∧ e'.height = e.height + n := by
  induction n generalizing depth e c with
  | zero => exact ⟨e, c, chain_done (ht ▸ ha), ht, rfl⟩
  | succ n ih =>
    obtain ⟨depth, rfl⟩ : ∃ depth', depth = depth' + 1 := ⟨depth - 1, by omega⟩
    have ht₁ : c.tokens = .fixed .dot :: .name "x" :: (fieldTokens n ++ us) := ht
    have ht₂ := Cursor.tokens_next ht₁
    have hd : c.isAt .dot = true := Cursor.isAt_fixed ht₁ .dot
    obtain ⟨e', c', h, hc', he'⟩ := ih (e := .field e "x" (c.next.next.since start)) (Nat.le_of_succ_le_succ hn)
      (Cursor.tokens_next ht₂)
    refine ⟨e', c', ?_, hc', ?_⟩
    · rw [chain]
      simp only [hd, if_true, Cursor.name_ok ht₂, ok_bind, h]
    · rw [he', Expr.height]
      omega

theorem joined_sums (start : Nat) {n depth : Nat} {us : List Token} {e : Expr} {c : Cursor} (hn : n ≤ depth)
    (ht : c.tokens = sumTokens n ++ us) (ha : Apart us) (hb : Below 0 us) :
    ∃ e' c', joined depth 0 start e c = .ok (e', c') ∧ c'.tokens = us ∧ e'.height = e.height + n := by
  induction n generalizing depth e c with
  | zero => exact ⟨e, c, joined_done (ht ▸ hb), ht, rfl⟩
  | succ n ih =>
    obtain ⟨depth, rfl⟩ : ∃ depth', depth = depth' + 1 := ⟨depth - 1, by omega⟩
    have ht₁ : c.tokens = .fixed .plus :: .name "x" :: (sumTokens n ++ us) := ht
    have ht₂ := Cursor.tokens_next ht₁
    have hop : c.peek?.bind Token.binary? = some (40, .strict (.arith .add)) := by
      rw [Cursor.peek?_eq, ht₁]
      rfl
    -- behind the right side there is another plus, which binds no more, or the end of the sum
    have hnext : Apart (sumTokens n ++ us) ∧ Below 41 (sumTokens n ++ us) := by
      cases n with
      | zero => exact ⟨ha, hb.mono (Nat.zero_le _)⟩
      | succ n =>
        have hplus : Joins 4 .plus (.strict (.arith .add)) := by decide
        exact ⟨hplus.apart _, hplus.below _⟩
    have hright := operators_name depth ht₂ hnext.1 hnext.2
    obtain ⟨e', c', h, hc', he'⟩ := ih (Nat.le_of_succ_le_succ hn) (Cursor.tokens_next ht₂)
    refine ⟨e', c', ?_, hc', ?_⟩
    · rw [joined, hop]
      simp only [Nat.not_lt_zero, if_false, hright, ok_bind]
      exact h
    · have hpos := e.height_pos
      rw [he', Expr.height, Expr.height]
      omega

theorem expr_choice {depth : Nat} {us : List Token} {e : Expr} {c c' : Cursor}
    (h : operators (depth + 1) 0 c = .ok (e, c')) (ht : c'.tokens = choiceTokens ++ us) (hu : Ends us) :
    ∃ e' c'', expr (depth + 2) c = .ok (e', c'') ∧ c''.tokens = us ∧ e'.height = e.height + 1 := by
  have ht₁ : c'.tokens = .fixed .question :: .name "x" :: .fixed .colon :: .name "x" :: us := ht
  have ht₂ := Cursor.tokens_next ht₁
  have ht₃ := Cursor.tokens_next ht₂
  have ht₄ := Cursor.tokens_next ht₃
  have hq : c'.isAt .question = true := Cursor.isAt_fixed ht₁ .question
  have hyes := expr_name depth ht₂ (ends_cons (by decide) _)
  have hno := expr_name depth ht₄ hu
  rw [expr, h]
  simp only [ok_bind, hq, if_true, hyes, Cursor.expect_ok ht₃, hno]
  refine ⟨_, _, rfl, Cursor.tokens_next ht₄, ?_⟩
  have hpos := e.height_pos
  simp only [Expr.height]
  omega

theorem expr_tower {n : Nat} {us : List Token} {c : Cursor} (ht : c.tokens = towerTokens n ++ us) (hu : Ends us) :
    ∃ e c', expr (n + 1) c = .ok (e, c') ∧ c'.tokens = us ∧ e.height = (n + 1) * (n + 1) := by
  induction n generalizing us c with
  | zero =>
    have ht : c.tokens = .name "x" :: us := ht
    exact ⟨_, _, expr_name 0 ht hu, Cursor.tokens_next ht, rfl⟩
  | succ n ih =>
    have ht₁ : c.tokens = .fixed .leftParen :: (towerTokens n ++ .fixed .rightParen :: (fieldTokens (n + 1) ++
        (sumTokens (n + 1) ++ (choiceTokens ++ us)))) := by
      simpa [towerTokens] using ht
    have hplus : Joins 4 .plus (.strict (.arith .add)) := by decide
    obtain ⟨e₁, c₁, h₁, hc₁, he₁⟩ := ih (Cursor.tokens_next ht₁) (ends_cons (by decide) _)
    obtain ⟨e₂, c₂, h₂, hc₂, he₂⟩ := chain_fields c.here.start
      (e := e₁.withSpan (c₁.next.since c.here.start)) (Nat.le_refl (n + 1)) (Cursor.tokens_next hc₁) (hplus.apart _)
    obtain ⟨e₃, c₃, h₃, hc₃, he₃⟩ := joined_sums c.here.start (e := e₂) (Nat.le_refl (n + 1)) hc₂
      ⟨nofun, nofun⟩ nofun
    have hatom : atom (n + 1) c = .ok (e₁.withSpan (c₁.next.since c.here.start), c₁.next) := by
      simp only [atom, Cursor.peek?_eq, ht₁, List.head?_cons, h₁, ok_bind, Cursor.expect_ok hc₁]
      rfl
    have hoperators : operators (n + 1) 0 c = .ok (e₃, c₃) := by
      rw [operators, operand_primary (by rw [ht₁]; rfl), primary, hatom]
      simp only [ok_bind, h₂, h₃]
    obtain ⟨e, c', h, hc', he⟩ := expr_choice hoperators hc₃ hu
    refine ⟨e, c', h, hc', ?_⟩
    rw [he, he₃, he₂, Expr.height_withSpan, he₁]
    ring

theorem endOfStatement_end {c : Cursor} (ht : c.tokens = []) : endOfStatement c = .ok c := by
  simp [endOfStatement, Cursor.isAt, Cursor.peek?_eq, ht]

theorem returned_tower {n : Nat} {c : Cursor} (ht : c.tokens = towerTokens n) :
    ∃ s c', returned (n + 1) c = .ok (s, c') ∧ c'.tokens = [] ∧ s.height = (n + 1) * (n + 1) + 1 := by
  have hu : Ends [] := ⟨⟨nofun, nofun⟩, nofun, nofun⟩
  have htower : c.tokens = towerTokens n ++ [] := by simpa using ht
  obtain ⟨e, c', h, hc', he⟩ := expr_tower htower hu
  refine ⟨.ret (some e), c', ?_, hc', by rw [Stmt.height, he]⟩
  have hvalue : (c.peek?.isNone || c.isAt .semicolon || c.isAt .rightBrace) = false := by
    cases n <;> simp [Cursor.isAt, Cursor.peek?_eq, ht, towerTokens]
  simp only [returned, hvalue, Bool.false_eq_true, if_false, h, ok_bind, endOfStatement_end hc']
  rfl

theorem statements_return {depth : Nat} {l : Lexeme} {bound : List Lexeme} {ts : List Token} {s : Stmt}
    {c c' : Cursor} (ht : c.tokens = .fixed .returnWord :: ts) (h : returned depth c.next = .ok (s, c'))
    (hc' : c'.tokens = []) : statements depth (l :: bound) c [] = .ok [s] := by
  have hs : c.isAt .semicolon = false := Cursor.isAt_fixed ht .semicolon
  have hw : c.isAt .ifWord = false := Cursor.isAt_fixed ht .ifWord
  have hstatement : statement depth c = .ok (s, c') := by
    rw [statement, hw]
    simp only [Bool.false_eq_true, if_false, simpleStatement, Cursor.ahead_eq, ht]
    exact h
  have hend : statements depth bound c' [s] = .ok [s] := by
    cases bound <;> simp [statements, Cursor.peek?_eq, hc']
  unfold statements
  simp only [Cursor.peek?_eq, ht, List.head?_cons, hs, Bool.false_eq_true, if_false, hstatement, ok_bind, hend]

theorem exists_height (depth : Nat) :
    ∃ ls ss, parseScript depth ls = .ok ss ∧ blockHeight ss = depth * depth + 1 := by
  have hscript (ts : List Token) : ∃ ls : List Lexeme, ls.map Lexeme.token = ts :=
    ⟨ts.map (⟨·, ⟨0, 0⟩⟩), by simp [Function.comp_def]⟩
  cases depth with
  | zero =>
    -- without any level there still is a return alone
    obtain ⟨ls, hls⟩ := hscript [.fixed .returnWord]
    have hc := Cursor.tokens_next (c := .atStart ls) hls
    have h : returned 0 (Cursor.atStart ls).next = .ok (.ret none, (Cursor.atStart ls).next) := by
      simp [returned, Cursor.peek?_eq, hc, endOfStatement_end hc, pure, Except.pure, ok_bind]
    cases ls with
    | nil => cases hls
    | cons l rest => exact ⟨_, _, statements_return hls h hc, rfl⟩
  | succ n =>
    obtain ⟨ls, hls⟩ := hscript (.fixed .returnWord :: towerTokens n)
    obtain ⟨s, c', h, hc', hs⟩ := returned_tower (Cursor.tokens_next (c := .atStart ls) hls)
    cases ls with
    | nil => cases hls
    | cons l rest => exact ⟨_, _, statements_return hls h hc', by simp [blockHeight, hs]⟩

theorem greatest_height (depth : Nat) :
    IsGreatest {n | ∃ ls ss, parseScript depth ls = .ok ss ∧ blockHeight ss = n} (depth * depth + 1) := by
  refine ⟨exists_height depth, ?_⟩
  rintro n ⟨ls, ss, h, rfl⟩
  exact parseScript_height h

theorem height_beyond_twice :
    (lexemes "((x).a + x ? x : x).a.a + x + x ? x : x").toOption.bind
      (fun ls => (parseScript 3 ls).toOption.map blockHeight) = some 10 ∧ 2 * 3 + 2 < 10 :=
  ⟨by cbv, by decide⟩

end FactFold.Script
