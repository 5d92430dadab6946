import FactFold.Proofs.Script.Grammar.FirstTokens

/-!
Tokens that are an expression are accepted as soon as enough levels of nesting are allowed. How many are
enough is not counted: what is read holds for all but finitely many depths. The loops of the parser are left
open at their end: what holds for the rest of a loop, from the tree read so far, holds for the whole loop.
-/

open Filter

namespace FactFold.Script

open Grammar

theorem eventually_succ {p : Nat → Prop} (h : ∀ᶠ depth in atTop, p depth) :
    ∀ᶠ depth in atTop, ∃ depth', depth = depth' + 1 ∧ p depth' := by
  obtain ⟨least, hleast⟩ := eventually_atTop.mp h
  refine eventually_atTop.mpr ⟨least + 1, fun depth hdepth => ⟨depth - 1, by omega, hleast _ (by omega)⟩⟩

theorem Expr.bare_signed (op : UnaryOp) (e : Expr) (span : Span) :
    (Expr.signed op e span).bare = Expr.signed op e.bare ⟨0, 0⟩ := by
  cases op with
  | not => rfl
  | neg =>
    cases e with
    | literal l place => cases l <;> rfl
    | _ => rfl

theorem Expr.signed_neg {e : Expr} (h : ¬IsNumber e) (span : Span) :
    Expr.signed .neg e span = .unary .neg e span := by
  unfold Expr.signed
  split
  · exact (h (.int _ _)).elim
  · exact (h (.float _ _)).elim
  · rfl

theorem joined_done {depth level start : Nat} {e : Expr} {c : Cursor} (h : Below level c.tokens) :
    joined depth level start e c = .ok (e, c) := by
  rw [joined.eq_def, Cursor.peek?_eq]
  split
  · rfl
  · rename_i p op hp
    rw [if_pos (h p op hp)]

theorem chain_done {depth start : Nat} {e : Expr} {c : Cursor} (h : Apart c.tokens) :
    chain depth start e c = .ok (e, c) := by
  rw [chain.eq_def, Cursor.isAt_false h.dot, Cursor.isAt_false h.paren]
  rfl

/-- Given enough nesting the parser reads the tree `a` up to the tokens `us`. -/
def Accepts {α : Type} (parse : Nat → Except ParseError (α × Cursor)) (bare : α → α) (a : α)
    (us : List Token) : Prop :=
  ∃ a' c, bare a' = a ∧ c.tokens = us ∧ ∀ᶠ depth in atTop, parse depth = .ok (a', c)

theorem operand_sign {t : Token} {op : UnaryOp} {ts us : List Token} {e : Expr} {c : Cursor}
    (ht : c.tokens = t :: ts) (hop : t.sign? = some op)
    (h : Accepts (operand · c.next) Expr.bare e us) :
    Accepts (operand · c) Expr.bare (Expr.signed op e ⟨0, 0⟩) us := by
  obtain ⟨e', c', he, hc, hread⟩ := h
  refine ⟨Expr.signed op e' (c'.since c.here.start), c', by rw [Expr.bare_signed, he], hc, ?_⟩
  filter_upwards [eventually_succ hread] with depth hdepth
  obtain ⟨depth, rfl, h₁⟩ := hdepth
  simp only [operand, Cursor.peek?_eq, ht, List.head?_cons, Option.bind_some, hop, h₁, ok_bind]
  rfl

mutual

theorem expr_complete {ts us : List Token} {e : Expr} {c : Cursor} (h : Expression ts e)
    (ht : c.tokens = ts ++ us) (hu : Ends us) : Accepts (expr · c) Expr.bare e us := by
  match h with
  | .plain h =>
    obtain ⟨e', c', he, hc, hread⟩ := level_complete 0 h ht (Nat.zero_le _) hu.toApart
      (hu.operator.mono (Nat.zero_le _))
    refine ⟨e', c', he, hc, ?_⟩
    have hoperators := hread (.ok (e', c')) (.of_forall fun depth => joined_done (hc ▸ hu.operator))
    filter_upwards [eventually_succ hoperators] with depth hdepth
    obtain ⟨depth, rfl, h₁⟩ := hdepth
    have hq : c'.isAt .question = false := Cursor.isAt_false (hc ▸ hu.question)
    simp only [expr, h₁, ok_bind, hq]
    rfl
  | @Expression.conditional cs ts vs _ _ _ hc hy hn =>
    have ht₁ : c.tokens = cs ++ .fixed .question :: (ts ++ .fixed .colon :: (vs ++ us)) := by simpa using ht
    have hbelow : Below 0 (.fixed .question :: (ts ++ .fixed .colon :: (vs ++ us))) := nofun
    obtain ⟨condition', c₁, hcondition, hc₁, hread⟩ := level_complete 0 hc ht₁
      (Nat.zero_le _) ⟨nofun, nofun⟩ (hbelow.mono (Nat.zero_le _))
    have hoperators := hread (.ok (condition', c₁)) (.of_forall fun depth => joined_done (hc₁ ▸ hbelow))
    obtain ⟨yes', c₂, hyes, hc₂, hread₂⟩ := expr_complete hy (Cursor.tokens_next hc₁)
      (ends_cons (by decide) (vs ++ us))
    obtain ⟨no', c₃, hno, hc₃, hread₃⟩ := expr_complete hn (Cursor.tokens_next hc₂) hu
    refine ⟨.conditional condition' yes' no' (c₃.since c.here.start), c₃, ?_, hc₃, ?_⟩
    · rw [Expr.bare, hcondition, hyes, hno]
    · filter_upwards [eventually_succ (hoperators.and (hread₂.and hread₃))] with depth hdepth
      obtain ⟨depth, rfl, h₁, h₂, h₃⟩ := hdepth
      have hq : c₁.isAt .question = true := Cursor.isAt_fixed hc₁ .question
      simp only [expr, h₁, ok_bind, hq, if_true, h₂, Cursor.expect_ok hc₂, h₃]
      rfl
termination_by structural h

theorem level_complete {k : Nat} (level : Nat) {ts us : List Token} {e : Expr} {c : Cursor} (h : Level k ts e)
    (ht : c.tokens = ts ++ us) (hl : level ≤ precedence k) (ha : Apart us)
    (hb : Below (precedence k + 1) us) :
    ∃ e' c', e'.bare = e ∧ c'.tokens = us ∧
      ∀ r, (∀ᶠ depth in atTop, joined depth level c.here.start e' c' = r) →
        ∀ᶠ depth in atTop, operators depth level c = r := by
  match h with
  | .operand h =>
    obtain ⟨e', c', he, hc, hread⟩ := operand_complete h ht ha
    refine ⟨e', c', he, hc, fun r hr => ?_⟩
    filter_upwards [hread, hr] with depth h₁ h₂
    simp only [operators, h₁, ok_bind, h₂]
  | .higher h =>
    have hle : precedence k ≤ precedence (k + 1) := precedence_le (Nat.le_succ k)
    exact level_complete level h ht (hl.trans hle) ha (hb.mono (Nat.succ_le_succ hle))
  | @Level.join _ f op ts vs _ _ hleft hj hright =>
    have ht₁ : c.tokens = ts ++ .fixed f :: (vs ++ us) := by simpa using ht
    obtain ⟨left', c₁, hleft', hc₁, hread⟩ := level_complete level hleft ht₁ hl (hj.apart _) (hj.below _)
    have hlt : precedence k + 1 ≤ precedence (k + 1) := precedence_lt (k + 1) hj.lt k (Nat.lt_succ_self k)
    obtain ⟨right', c₂, hright', hc₂, hread₂⟩ := level_complete (precedence k + 1) hright
      (Cursor.tokens_next hc₁) hlt ha (hb.mono (hlt.trans (Nat.le_succ _)))
    have hoperators := hread₂ (.ok (right', c₂)) (.of_forall fun depth => joined_done (hc₂ ▸ hb))
    refine ⟨.binary op left' right' (c₂.since c.here.start), c₂, ?_, hc₂, fun r hr => hread r ?_⟩
    · rw [Expr.bare, hleft', hright']
    · filter_upwards [eventually_succ (hoperators.and hr)] with depth hdepth
      obtain ⟨depth, rfl, h₁, h₂⟩ := hdepth
      have hop : c₁.peek?.bind Token.binary? = some (precedence k, op) := by
        rw [Cursor.peek?_eq, hc₁]
        exact hj.binary?
      rw [joined, hop]
      simp only [if_neg (Nat.not_lt.mpr hl), h₁, ok_bind, h₂]
termination_by structural h

theorem operand_complete {ts us : List Token} {e : Expr} {c : Cursor} (h : Operand ts e)
    (ht : c.tokens = ts ++ us) (ha : Apart us) : Accepts (operand · c) Expr.bare e us := by
  match h with
  | .plain h =>
    obtain ⟨e', c', he, hc, hread⟩ := postfixed_complete h ht
    refine ⟨e', c', he, hc, ?_⟩
    have hprimary := hread (.ok (e', c')) (.of_forall fun depth => chain_done (hc ▸ ha))
    filter_upwards [hprimary] with depth h₁
    rw [operand.eq_def, Cursor.peek?_eq, ht, (h.starts.append us).sign?]
    exact h₁
  | .negInt h => exact operand_sign ht rfl (operand_complete h (Cursor.tokens_next ht) ha)
  | .negFloat h => exact operand_sign ht rfl (operand_complete h (Cursor.tokens_next ht) ha)
  | .neg h hn =>
    rw [← Expr.signed_neg hn]
    exact operand_sign ht rfl (operand_complete h (Cursor.tokens_next ht) ha)
  | .not h => exact operand_sign ht rfl (operand_complete h (Cursor.tokens_next ht) ha)
termination_by structural h

theorem postfixed_complete {ts us : List Token} {e : Expr} {c : Cursor} (h : Postfixed ts e)
    (ht : c.tokens = ts ++ us) :
    ∃ e' c', e'.bare = e ∧ c'.tokens = us ∧
      ∀ r, (∀ᶠ depth in atTop, chain depth c.here.start e' c' = r) →
        ∀ᶠ depth in atTop, primary depth c = r := by
  match h with
  | .atom h =>
    obtain ⟨e', c', he, hc, hread⟩ := atom_complete h ht
    refine ⟨e', c', he, hc, fun r hr => ?_⟩
    filter_upwards [hread, hr] with depth h₁ h₂
    simp only [primary, h₁, ok_bind, h₂]
  | @Postfixed.field ts _ h name =>
    have ht₁ : c.tokens = ts ++ .fixed .dot :: .name name :: us := by simpa using ht
    obtain ⟨e', c₁, he, hc₁, hread⟩ := postfixed_complete h ht₁
    have hc₂ := Cursor.tokens_next hc₁
    refine ⟨.field e' name (c₁.next.next.since c.here.start), c₁.next.next, ?_, Cursor.tokens_next hc₂,
      fun r hr => hread r ?_⟩
    · rw [Expr.bare, he]
    · filter_upwards [eventually_succ hr] with depth hdepth
      obtain ⟨depth, rfl, h₁⟩ := hdepth
      have hd : c₁.isAt .dot = true := Cursor.isAt_fixed hc₁ .dot
      simp only [chain.eq_def (depth + 1), hd, if_true, Cursor.name_ok hc₂, ok_bind, h₁]
  | @Postfixed.call ts vs _ function _ h hp ha =>
    have ht₁ : c.tokens = ts ++ .fixed .leftParen :: (vs ++ .fixed .rightParen :: us) := by simpa using ht
    obtain ⟨e', c₁, he, hc₁, hread⟩ := postfixed_complete h ht₁
    have hbound : c₁.next.rest.length ≤ c₁.rest.length := by
      simp [← Cursor.tokens_length, Cursor.tokens_next hc₁, hc₁]
    obtain ⟨args', c₂, hargs, hc₂, hread₂⟩ := arguments_complete ha (Cursor.tokens_next hc₁) hbound
    refine ⟨.call function args' (c₂.since c.here.start), c₂, ?_, hc₂, fun r hr => hread r ?_⟩
    · rw [Expr.bare, hargs]
    · filter_upwards [eventually_succ ((hread₂ []).and hr)] with depth hdepth
      obtain ⟨depth, rfl, h₁, h₂⟩ := hdepth
      have hd : c₁.isAt .dot = false := Cursor.isAt_fixed hc₁ .dot
      have hl : c₁.isAt .leftParen = true := Cursor.isAt_fixed hc₁ .leftParen
      have hpath : e'.path? = some function := by rw [← e'.path?_bare, he, hp]
      rw [chain.eq_def]
      simp only [hd, hl, Bool.false_eq_true, if_false, if_true, hpath]
      rw [h₁, ok_bind]
      exact h₂
termination_by structural h

theorem atom_complete {ts us : List Token} {e : Expr} {c : Cursor} (h : Atom ts e)
    (ht : c.tokens = ts ++ us) : Accepts (atom · c) Expr.bare e us := by
  match h with
  | .literal h =>
    refine ⟨.literal _ (c.next.since c.here.start), c.next, rfl, Cursor.tokens_next ht,
      .of_forall fun depth => ?_⟩
    cases h <;> simp [atom, Cursor.peek?_eq, ht, Token.literal?]
  | .name n =>
    refine ⟨.name n (c.next.since c.here.start), c.next, rfl, Cursor.tokens_next ht,
      .of_forall fun depth => ?_⟩
    simp [atom, Cursor.peek?_eq, ht]
  | @Atom.parens ts _ h =>
    have ht₁ : c.tokens = .fixed .leftParen :: (ts ++ .fixed .rightParen :: us) := by simpa using ht
    obtain ⟨e', c₁, he, hc₁, hread⟩ := expr_complete h (Cursor.tokens_next ht₁)
      (ends_cons (by decide) us)
    refine ⟨e'.withSpan (c₁.next.since c.here.start), c₁.next, by rw [e'.bare_withSpan, he],
      Cursor.tokens_next hc₁, ?_⟩
    filter_upwards [hread] with depth h₁
    simp only [atom, Cursor.peek?_eq, ht₁, List.head?_cons, h₁, ok_bind, Cursor.expect_ok hc₁]
    rfl
termination_by structural h

theorem arguments_complete {ts us : List Token} {es : List Expr} {c : Cursor} {bound : List Lexeme}
    (h : Arguments ts es) (ht : c.tokens = ts ++ .fixed .rightParen :: us)
    (hb : c.rest.length ≤ bound.length) :
    ∃ es' c', bareArgs es' = es ∧ c'.tokens = us ∧
      ∀ done, ∀ᶠ depth in atTop, arguments (expr depth) bound c done = .ok (done.reverse ++ es', c') := by
  match h with
  | .none =>
    refine ⟨[], c.next, rfl, Cursor.tokens_next ht, fun done => .of_forall fun depth => ?_⟩
    have hp : c.isAt .rightParen = true := Cursor.isAt_fixed ht .rightParen
    rw [arguments.eq_def]
    simp [hp]
  | .last h =>
    obtain ⟨e', c₁, he, hc₁, hread⟩ := expr_complete h ht (ends_cons (by decide) us)
    have hp : c.isAt .rightParen = false := (ht ▸ h.starts.append _).isAt (by decide)
    have hp₁ : c₁.isAt .rightParen = true := Cursor.isAt_fixed hc₁ .rightParen
    refine ⟨[e'], c₁.next, by rw [bareArgs, bareArgs, he], Cursor.tokens_next hc₁, fun done => ?_⟩
    filter_upwards [hread] with depth h₁
    rw [arguments.eq_def]
    simp only [hp, Bool.false_eq_true, if_false, h₁, ok_bind, hp₁, if_true, List.reverse_cons]
    rfl
  | @Arguments.more ts vs _ _ h hs =>
    have ht₁ : c.tokens = ts ++ .fixed .comma :: (vs ++ .fixed .rightParen :: us) := by simpa using ht
    obtain ⟨e', c₁, he, hc₁, hread⟩ := expr_complete h ht₁ (ends_cons (by decide) _)
    have hc₂ := Cursor.tokens_next hc₁
    have hp : c.isAt .rightParen = false := (ht₁ ▸ h.starts.append _).isAt (by decide)
    have hp₁ : c₁.isAt .rightParen = false := Cursor.isAt_fixed hc₁ .rightParen
    have hlength : c₁.next.rest.length < c.rest.length := by
      simp only [← Cursor.tokens_length, hc₂, ht₁, List.length_append, List.length_cons]
      omega
    cases bound with
    | nil => exact absurd hlength (by simp [List.eq_nil_of_length_eq_zero (Nat.le_zero.mp hb)])
    | cons l bound =>
      have hb₁ : c₁.next.rest.length ≤ bound.length := by
        rw [List.length_cons] at hb
        omega
      obtain ⟨es', c₂, hes, hc₂, hread₂⟩ := arguments_complete hs hc₂ hb₁
      refine ⟨e' :: es', c₂, by rw [bareArgs, he, hes], hc₂, fun done => ?_⟩
      filter_upwards [hread, hread₂ (e' :: done)] with depth h₁ h₂
      rw [arguments.eq_def]
      simp [hp, h₁, ok_bind, hp₁, Cursor.expect_ok hc₁, h₂]
termination_by structural h

end

end FactFold.Script
