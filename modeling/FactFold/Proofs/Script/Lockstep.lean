import FactFold.Proofs.Script.Grammar.Completeness

/-!
Two lists of lexemes that differ only behind some place are parsed in lockstep up to that place. If what
stands there begins with a semicolon or a closing brace, or is empty, no expression reaches beyond it.
-/

namespace FactFold.Script

section

variable {ε α α' β β' : Type} {R : α → α' → Prop} {S : β → β' → Prop} {x : Except ε α} {y : Except ε α'}

def Fails (x : Except ε α) : Prop :=
  ∃ e, x = .error e

def Agree (R : α → α' → Prop) : Except ε α → Except ε α' → Prop
  | .ok a, .ok b => R a b
  | .error _, .error _ => True
  | _, _ => False

theorem Fails.bind (h : Fails x) (f : α → Except ε β) : Fails (x >>= f) := by
  obtain ⟨e, rfl⟩ := h
  exact ⟨e, rfl⟩

theorem Fails.agree (hx : Fails x) (hy : Fails y) : Agree R x y := by
  obtain ⟨e, rfl⟩ := hx
  obtain ⟨e', rfl⟩ := hy
  trivial

theorem agree_refl {R : α → α → Prop} (h : ∀ a, R a a) (x : Except ε α) : Agree R x x := by
  cases x with
  | ok a => exact h a
  | error e => trivial

theorem Agree.bind_ok {f : α → Except ε β} {g : α' → Except ε β'} (h : Agree R x y)
    (hfg : ∀ a b, x = .ok a → y = .ok b → R a b → Agree S (f a) (g b)) : Agree S (x >>= f) (y >>= g) := by
  cases x with
  | ok a =>
    cases y with
    | ok b => exact hfg a b rfl rfl h
    | error e => cases h
  | error e =>
    cases y with
    | ok b => cases h
    | error e' => trivial

theorem Agree.bind {f : α → Except ε β} {g : α' → Except ε β'} (h : Agree R x y)
    (hfg : ∀ a b, R a b → Agree S (f a) (g b)) : Agree S (x >>= f) (y >>= g) :=
  h.bind_ok fun a b _ _ hab => hfg a b hab

theorem Agree.map {f : α → β} {g : α' → β'} (h : Agree R x y) (hfg : ∀ a b, R a b → S (f a) (g b)) :
    Agree S (x.map f) (y.map g) := by
  cases x <;> cases y <;> first | exact hfg _ _ h | exact h

theorem Agree.ok_iff {x y : Except ε α} (h : Agree Eq x y) (a : α) : x = .ok a ↔ y = .ok a := by
  cases x with
  | ok b =>
    cases y with
    | ok b' =>
      obtain rfl : b = b' := h
      rfl
    | error e => cases h
  | error e =>
    cases y with
    | ok b => cases h
    | error e' => simp

end

def Stop (ls : List Lexeme) : Prop :=
  ∀ l ∈ ls.head?, l.token = .fixed .semicolon ∨ l.token = .fixed .rightBrace

/-- Both cursors are at the same place of the `whole` that stands before `u` on the one side and before `v`
on the other. -/
inductive Lockstep (whole u v : List Lexeme) : Cursor → Cursor → Prop
  | stop (last : Nat) : Lockstep whole u v ⟨last, u⟩ ⟨last, v⟩
  | step (last : Nat) {l : Lexeme} {p : List Lexeme} (hp : l :: p <:+ whole) :
      Lockstep whole u v ⟨last, l :: (p ++ u)⟩ ⟨last, l :: (p ++ v)⟩

def Both {α : Type} (R : Cursor → Cursor → Prop) (x y : α × Cursor) : Prop :=
  x.1 = y.1 ∧ R x.2 y.2

theorem lockstep_append {whole p : List Lexeme} (hp : p <:+ whole) (u v : List Lexeme) (last : Nat) :
    Lockstep whole u v ⟨last, p ++ u⟩ ⟨last, p ++ v⟩ := by
  cases p with
  | nil => exact .stop last
  | cons l p => exact .step last hp

theorem lockstep_next {whole p : List Lexeme} {l : Lexeme} (hp : l :: p <:+ whole) (u v : List Lexeme) :
    Lockstep whole u v ⟨l.span.stop, p ++ u⟩ ⟨l.span.stop, p ++ v⟩ :=
  lockstep_append ((List.suffix_cons l p).trans hp) u v l.span.stop

theorem Lockstep.since {whole u v : List Lexeme} {c d : Cursor} (h : Lockstep whole u v c d) (start : Nat) :
    c.since start = d.since start := by
  cases h <;> rfl

section

variable {c : Cursor} {f : Fixed}

theorem Stop.peek? (h : Stop c.rest) :
    c.peek? = none ∨ c.peek? = some (.fixed .semicolon) ∨ c.peek? = some (.fixed .rightBrace) := by
  unfold Cursor.peek?
  cases hl : c.rest.head? with
  | none => exact .inl rfl
  | some l =>
    rcases h l hl with ht | ht
    · exact .inr (.inl (congrArg some ht))
    · exact .inr (.inr (congrArg some ht))

theorem Stop.isAt (h : Stop c.rest) (hf : f ∉ [Fixed.semicolon, .rightBrace]) : c.isAt f = false := by
  rw [← Bool.not_eq_true, Cursor.isAt_iff]
  intro hpeek
  rcases h.peek? with hc | hc | hc
  · cases hc.symm.trans hpeek
  · cases hc.symm.trans hpeek
    exact hf (by decide)
  · cases hc.symm.trans hpeek
    exact hf (by decide)

theorem Stop.binary? (h : Stop c.rest) : c.peek?.bind Token.binary? = none := by
  rcases h.peek? with hc | hc | hc <;> rw [hc] <;> rfl

theorem Stop.sign? (h : Stop c.rest) : c.peek?.bind Token.sign? = none := by
  rcases h.peek? with hc | hc | hc <;> rw [hc] <;> rfl

theorem name_stop (h : Stop c.rest) (place : Place) : Fails (c.name place) := by
  unfold Cursor.name
  rcases h.peek? with hc | hc | hc <;> rw [hc] <;> exact ⟨_, rfl⟩

theorem atom_stop (h : Stop c.rest) (depth : Nat) : Fails (atom depth c) := by
  unfold atom
  rcases h.peek? with hc | hc | hc <;> rw [hc] <;> exact ⟨_, rfl⟩

theorem primary_stop (h : Stop c.rest) (depth : Nat) : Fails (primary depth c) := by
  unfold primary
  exact (atom_stop h depth).bind _

theorem operand_stop (h : Stop c.rest) (depth : Nat) : Fails (operand depth c) := by
  rw [operand, h.sign?]
  exact primary_stop h depth

theorem operators_stop (h : Stop c.rest) (depth level : Nat) : Fails (operators depth level c) := by
  unfold operators
  exact (operand_stop h depth).bind _

theorem expr_stop (h : Stop c.rest) (depth : Nat) : Fails (expr depth c) := by
  unfold expr
  cases depth with
  | zero => exact ⟨_, rfl⟩
  | succ depth => exact (operators_stop h depth 0).bind _

end

variable {whole u v : List Lexeme} (hu : Stop u) (hv : Stop v)

section

variable {c d : Cursor} {f : Fixed}

include hu hv

theorem Lockstep.isAt (h : Lockstep whole u v c d) (hf : f ∉ [Fixed.semicolon, .rightBrace]) :
    c.isAt f = d.isAt f := by
  cases h with
  | stop last => rw [Stop.isAt hu hf, Stop.isAt hv hf]
  | step last hp => rfl

omit hv in
theorem Lockstep.next (h : Lockstep whole u v c d) (hf : f ∉ [Fixed.semicolon, .rightBrace])
    (hc : c.isAt f = true) : Lockstep whole u v c.next d.next := by
  cases h with
  | stop last => cases hc.symm.trans (Stop.isAt hu hf)
  | @step last l p hp => exact lockstep_next hp u v

theorem Lockstep.expect (h : Lockstep whole u v c d) (hf : f ∉ [Fixed.semicolon, .rightBrace]) :
    Agree (Lockstep whole u v) (c.expect f) (d.expect f) := by
  unfold Cursor.expect
  rw [← h.isAt hu hv hf]
  split
  · rename_i hc
    exact h.next hu hf hc
  · trivial

theorem Lockstep.name (h : Lockstep whole u v c d) (place : Place) :
    Agree (Both (Lockstep whole u v)) (c.name place) (d.name place) := by
  cases h with
  | stop last => exact (name_stop hu place).agree (name_stop hv place)
  | @step last l p hp =>
    have hnext := lockstep_next hp u v
    unfold Cursor.name
    simp only [Cursor.peek?, List.head?_cons, Option.map_some]
    split
    · exact ⟨rfl, hnext⟩
    · trivial

end

theorem Cursor.isAt_congr {c d : Cursor} (h : c.peek? = d.peek?) (f : Fixed) : c.isAt f = d.isAt f := by
  rw [isAt, isAt, h]

theorem Cursor.next_le (c : Cursor) : c.next.rest.length ≤ c.rest.length := by
  unfold next
  cases hr : c.rest with
  | nil => rw [hr]
  | cons l rest => exact Nat.le_succ _

theorem Cursor.expect_lt {c d : Cursor} {f : Fixed} (h : c.expect f = .ok d) :
    d.tokens.length < c.tokens.length := by
  rw [tokens_of_expect h]
  exact Nat.lt_succ_self _

include hu hv in
theorem arguments_lockstep {argument : Cursor → Except ParseError (Expr × Cursor)}
    (hagree : ∀ c d, Lockstep whole u v c d → Agree (Both (Lockstep whole u v)) (argument c) (argument d))
    (hshort : ∀ c e c', argument c = .ok (e, c') → c'.tokens.length ≤ c.tokens.length)
    {bound bound' : List Lexeme} {c d : Cursor} (h : Lockstep whole u v c d) (hb : c.rest.length ≤ bound.length)
    (hb' : d.rest.length ≤ bound'.length) (done : List Expr) :
    Agree (Both (Lockstep whole u v)) (arguments argument bound c done) (arguments argument bound' d done) := by
  unfold arguments
  rw [← h.isAt hu hv (by decide)]
  split
  · rename_i hp
    exact ⟨rfl, h.next hu (by decide) hp⟩
  · refine (hagree c d h).bind_ok ?_
    rintro ⟨e, c₁⟩ ⟨_, d₁⟩ hc₁ hd₁ ⟨rfl, h₁⟩
    dsimp only at h₁ ⊢
    rw [← h₁.isAt hu hv (by decide)]
    split
    · rename_i hp
      exact ⟨rfl, h₁.next hu (by decide) hp⟩
    · refine (h₁.expect hu hv (by decide)).bind_ok ?_
      intro c₂ d₂ hc₂ hd₂ h₂
      have hc := (Cursor.expect_lt hc₂).trans_le (hshort _ _ _ hc₁)
      have hd := (Cursor.expect_lt hd₂).trans_le (hshort _ _ _ hd₁)
      obtain ⟨l, bound, rfl, hb₂⟩ := bound_next hc hb
      obtain ⟨l', bound', rfl, hb₂'⟩ := bound_next hd hb'
      exact arguments_lockstep hagree hshort h₂ hb₂ hb₂' (e :: done)
termination_by bound.length

include hu hv

mutual

theorem expr_lockstep {depth : Nat} {c d : Cursor} (h : Lockstep whole u v c d) :
    Agree (Both (Lockstep whole u v)) (expr depth c) (expr depth d) := by
  cases h with
  | stop last => exact (expr_stop hu depth).agree (expr_stop hv depth)
  | step last hp =>
    cases depth with
    | zero => simp only [expr, Cursor.fail]; trivial
    | succ depth =>
      simp only [expr]
      refine (operators_lockstep (.step last hp)).bind ?_
      rintro ⟨condition, c₁⟩ ⟨_, d₁⟩ ⟨rfl, h₁⟩
      dsimp only at h₁ ⊢
      rw [← h₁.isAt hu hv (by decide)]
      split
      · rename_i hq
        refine (expr_lockstep (h₁.next hu (by decide) hq)).bind ?_
        rintro ⟨yes, c₂⟩ ⟨_, d₂⟩ ⟨rfl, h₂⟩
        refine (h₂.expect hu hv (by decide)).bind ?_
        intro c₃ d₃ h₃
        refine (expr_lockstep h₃).bind ?_
        rintro ⟨no, c₄⟩ ⟨_, d₄⟩ ⟨rfl, h₄⟩
        dsimp only at h₄ ⊢
        rw [h₄.since]
        exact ⟨rfl, h₄⟩
      · exact ⟨rfl, h₁⟩
termination_by (depth, 0)

theorem operators_lockstep {depth level : Nat} {c d : Cursor} (h : Lockstep whole u v c d) :
    Agree (Both (Lockstep whole u v)) (operators depth level c) (operators depth level d) := by
  cases h with
  | stop last => exact (operators_stop hu depth level).agree (operators_stop hv depth level)
  | step last hp =>
    simp only [operators]
    refine (operand_lockstep (.step last hp)).bind ?_
    rintro ⟨left, c₁⟩ ⟨_, d₁⟩ ⟨rfl, h₁⟩
    exact joined_lockstep h₁
termination_by (depth, 4)

theorem joined_lockstep {depth level start : Nat} {left : Expr} {c d : Cursor} (h : Lockstep whole u v c d) :
    Agree (Both (Lockstep whole u v)) (joined depth level start left c) (joined depth level start left d) := by
  rw [joined.eq_def, joined.eq_def depth level start left d]
  cases h with
  | stop last =>
    rw [Stop.binary? hu, Stop.binary? hv]
    exact ⟨rfl, .stop last⟩
  | @step last l p hp =>
    have hnext := lockstep_next hp u v
    simp only [Cursor.peek?, List.head?_cons, Option.map_some, Option.bind_some]
    split
    · exact ⟨rfl, .step last hp⟩
    · split
      · exact ⟨rfl, .step last hp⟩
      · cases depth with
        | zero => trivial
        | succ depth =>
          refine (operators_lockstep hnext).bind ?_
          rintro ⟨right, c₁⟩ ⟨_, d₁⟩ ⟨rfl, h₁⟩
          dsimp only at h₁ ⊢
          rw [h₁.since]
          exact joined_lockstep h₁
termination_by (depth, 0)

theorem operand_lockstep {depth : Nat} {c d : Cursor} (h : Lockstep whole u v c d) :
    Agree (Both (Lockstep whole u v)) (operand depth c) (operand depth d) := by
  cases h with
  | stop last => exact (operand_stop hu depth).agree (operand_stop hv depth)
  | @step last l p hp =>
    have hnext := lockstep_next hp u v
    rw [operand, operand]
    simp only [Cursor.peek?, List.head?_cons, Option.map_some, Option.bind_some]
    split
    · exact primary_lockstep (.step last hp)
    · cases depth with
      | zero => trivial
      | succ depth =>
        refine (operand_lockstep hnext).bind ?_
        rintro ⟨e, c₁⟩ ⟨_, d₁⟩ ⟨rfl, h₁⟩
        dsimp only at h₁ ⊢
        rw [h₁.since]
        exact ⟨rfl, h₁⟩
termination_by (depth, 3)

theorem primary_lockstep {depth : Nat} {c d : Cursor} (h : Lockstep whole u v c d) :
    Agree (Both (Lockstep whole u v)) (primary depth c) (primary depth d) := by
  cases h with
  | stop last => exact (primary_stop hu depth).agree (primary_stop hv depth)
  | step last hp =>
    simp only [primary]
    refine (atom_lockstep (.step last hp)).bind ?_
    rintro ⟨e, c₁⟩ ⟨_, d₁⟩ ⟨rfl, h₁⟩
    exact chain_lockstep h₁
termination_by (depth, 2)

theorem chain_lockstep {depth start : Nat} {e : Expr} {c d : Cursor} (h : Lockstep whole u v c d) :
    Agree (Both (Lockstep whole u v)) (chain depth start e c) (chain depth start e d) := by
  rw [chain.eq_def, chain.eq_def depth start e d, ← h.isAt hu hv (by decide), ← h.isAt hu hv (by decide)]
  split
  · rename_i hdot
    cases depth with
    | zero => trivial
    | succ depth =>
      refine ((h.next hu (by decide) hdot).name hu hv .afterDot).bind ?_
      rintro ⟨name, c₁⟩ ⟨_, d₁⟩ ⟨rfl, h₁⟩
      dsimp only at h₁ ⊢
      rw [h₁.since]
      exact chain_lockstep h₁
  · split
    · rename_i hparen
      split
      · trivial
      · trivial
      · rename_i function depth hfunction
        have hnext := h.next hu (by decide) hparen
        have hshort {c₁ c₂ : Cursor} {e : Expr} (he : expr depth c₁ = .ok (e, c₂)) :
            c₂.tokens.length ≤ c₁.tokens.length := by
          obtain ⟨ts, hts, -⟩ := expr_sound he
          rw [hts, List.length_append]
          exact Nat.le_add_left _ _
        refine (arguments_lockstep hu hv (fun _ _ => expr_lockstep) (fun _ _ _ => hshort) hnext c.next_le d.next_le
          []).bind ?_
        rintro ⟨args, c₁⟩ ⟨_, d₁⟩ ⟨rfl, h₁⟩
        dsimp only at h₁ ⊢
        rw [h₁.since]
        exact chain_lockstep h₁
    · exact ⟨rfl, h⟩
termination_by (depth, 0)

theorem atom_lockstep {depth : Nat} {c d : Cursor} (h : Lockstep whole u v c d) :
    Agree (Both (Lockstep whole u v)) (atom depth c) (atom depth d) := by
  cases h with
  | stop last => exact (atom_stop hu depth).agree (atom_stop hv depth)
  | @step last l p hp =>
    have hnext := lockstep_next hp u v
    rw [atom, atom]
    simp only [Cursor.peek?, List.head?_cons, Option.map_some]
    split
    · exact ⟨rfl, hnext⟩
    · refine (expr_lockstep hnext).bind ?_
      rintro ⟨e, c₁⟩ ⟨_, d₁⟩ ⟨rfl, h₁⟩
      refine (h₁.expect hu hv (by decide)).bind ?_
      intro c₂ d₂ h₂
      rw [h₂.since]
      exact ⟨rfl, h₂⟩
    · split
      · exact ⟨rfl, hnext⟩
      · trivial
termination_by (depth, 1)

end

end FactFold.Script
