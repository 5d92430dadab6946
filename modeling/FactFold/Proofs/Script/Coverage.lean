import FactFold.Proofs.Script.Grammar.Expressions
import FactFold.Proofs.Script.NestingLimit

/-!
An expression is read off the lexemes that it covers: it comes out in the same way wherever these stand, as long
as what stands behind them does not go on with it. So every node of a tree is what the lexemes of its own stretch
are parsed to.
-/

namespace FactFold.Script

open Grammar

/-! ## Stretches of lexemes -/

def firstByte (p : List Lexeme) : Nat :=
  (p.head?.map (·.span.start)).getD 0

def lastByte (p : List Lexeme) : Nat :=
  (p.getLast?.map (·.span.stop)).getD 0

def stretch (p : List Lexeme) : Span :=
  ⟨firstByte p, max (firstByte p) (lastByte p)⟩

theorem lastByte_append (p : List Lexeme) {q : List Lexeme} (hq : q ≠ []) : lastByte (p ++ q) = lastByte q := by
  rw [lastByte, List.getLast?_append_of_ne_nil p hq, lastByte]

theorem lastByte_cons (l : Lexeme) {p : List Lexeme} (hp : p ≠ []) : lastByte (l :: p) = lastByte p :=
  lastByte_append [l] hp

/-! ## Cursors at a lexeme -/

section

variable {c c' : Cursor} {l : Lexeme} {f : Fixed}

theorem Cursor.of_peek? {t : Token} (h : c.peek? = some t) :
    ∃ l, c.rest = l :: c.next.rest ∧ l.token = t ∧ c.next.last = l.span.stop ∧ c.here.start = l.span.start := by
  obtain ⟨last, _ | ⟨l, rest⟩⟩ := c
  · cases h
  · exact ⟨l, rfl, Option.some.inj h, rfl, rfl⟩

theorem Cursor.of_isAt (h : c.isAt f = true) :
    ∃ l, c.rest = l :: c.next.rest ∧ l.token = .fixed f ∧ c.next.last = l.span.stop ∧ c.here.start = l.span.start :=
  of_peek? (isAt_iff.mp h)

theorem Cursor.of_expect (h : c.expect f = .ok c') :
    ∃ l, c.rest = l :: c'.rest ∧ l.token = .fixed f ∧ c'.last = l.span.stop := by
  unfold expect at h
  split at h
  · rename_i hf
    cases h
    obtain ⟨l, hrest, htoken, hlast, -⟩ := of_isAt hf
    exact ⟨l, hrest, htoken, hlast⟩
  · cases h

theorem Cursor.of_name {place : Place} {n : String} (h : c.name place = .ok (n, c')) :
    ∃ l, c.rest = l :: c'.rest ∧ l.token = .name n ∧ c'.last = l.span.stop := by
  unfold name at h
  split at h
  · rename_i hn
    cases h
    obtain ⟨l, hrest, htoken, hlast, -⟩ := of_peek? hn
    exact ⟨l, hrest, htoken, hlast⟩
  · cases h

theorem Cursor.isAt_nil (last : Nat) (f : Fixed) : (Cursor.mk last []).isAt f = false :=
  rfl

theorem Cursor.isAt_cons (h : l.token = .fixed f) (g : Fixed) (last : Nat) (rest : List Lexeme) :
    (Cursor.mk last (l :: rest)).isAt g = (g == f) := by
  simp only [isAt, peek?, List.head?_cons, Option.map_some, h]

theorem Cursor.expect_cons (h : l.token = .fixed f) (last : Nat) (rest : List Lexeme) :
    (Cursor.mk last (l :: rest)).expect f = .ok ⟨l.span.stop, rest⟩ := by
  simp only [expect, isAt_cons h, beq_self_eq_true, if_true, next]

theorem Cursor.name_cons {n : String} (h : l.token = .name n) (place : Place) (last : Nat) (rest : List Lexeme) :
    (Cursor.mk last (l :: rest)).name place = .ok (n, ⟨l.span.stop, rest⟩) := by
  simp only [name, peek?, List.head?_cons, Option.map_some, h, next]

end

/-! ## What an expression covers -/

def Expr.parts : Expr → List Expr
  | .literal _ _ => []
  | .name _ _ => []
  | .field object _ _ => [object]
  | .call _ args _ => args
  | .unary _ operand _ => [operand]
  | .binary _ left right _ => [left, right]
  | .conditional condition yes no _ => [condition, yes, no]

def Alone (p : List Lexeme) (e : Expr) : Prop :=
  ∃ depth, parseExpr depth p = .ok e

mutual

/-- The lexemes are those of the expression, and among them are those of its parts, one part behind the other. -/
inductive Covers : List Lexeme → Expr → Prop
  | node {p : List Lexeme} {e : Expr} (nonempty : p ≠ []) (alone : Alone p e) (span : e.span = stretch p)
    (parts : CoversAll p e.parts) : Covers p e

inductive CoversAll : List Lexeme → List Expr → Prop
  | nil (p : List Lexeme) : CoversAll p []
  | cons (gap : List Lexeme) {p rest : List Lexeme} {e : Expr} {es : List Expr} (here : Covers p e)
    (behind : CoversAll rest es) : CoversAll (gap ++ (p ++ rest)) (e :: es)

end

theorem Covers.parts {p : List Lexeme} {e : Expr} (h : Covers p e) : CoversAll p e.parts := by
  cases h with
  | node _ _ _ parts => exact parts

theorem CoversAll.before {p : List Lexeme} {es : List Expr} (h : CoversAll p es) (before : List Lexeme) :
    CoversAll (before ++ p) es := by
  cases h with
  | nil => exact .nil _
  | cons gap here behind =>
    rw [← List.append_assoc]
    exact .cons (before ++ gap) here behind

theorem CoversAll.append {p q : List Lexeme} {es fs : List Expr} (h : CoversAll p es) (h' : CoversAll q fs) :
    CoversAll (p ++ q) (es ++ fs) := by
  induction es generalizing p with
  | nil => exact h'.before p
  | cons e es ih =>
    cases h with
    | cons gap here behind =>
      rw [List.append_assoc, List.append_assoc, List.cons_append]
      exact .cons gap here (ih behind)

theorem Covers.all {p : List Lexeme} {e : Expr} (h : Covers p e) : CoversAll p [e] := by
  have hall := CoversAll.cons [] h (.nil [])
  rwa [List.nil_append, List.append_nil] at hall

/-! ## Expressions on their own -/

section

variable {depth last last' : Nat} {p : List Lexeme} {e : Expr}

theorem alone_of_expr (h : expr depth ⟨0, p⟩ = .ok (e, ⟨last, []⟩)) : Alone p e := by
  refine ⟨depth, ?_⟩
  simp only [parseExpr, Cursor.atStart, h, ok_bind]
  rfl

theorem joined_lower {level start : Nat} {left : Expr} {c : Cursor}
    (h : joined depth level start left c = .ok (e, ⟨last, []⟩)) :
    joined depth 0 start left c = .ok (e, ⟨last, []⟩) := by
  induction depth generalizing left c with
  | zero =>
    rw [joined.eq_def] at h ⊢
    split at h
    · exact h
    · split at h
      · rename_i hop _
        cases h
        cases hop
      · cases h
  | succ depth ih =>
    rw [joined.eq_def] at h ⊢
    split at h
    · exact h
    · rename_i hop
      split at h
      · cases h
        cases hop
      · obtain ⟨⟨right, c₁⟩, h₁, h⟩ := bind_eq_ok.mp h
        simp only [Nat.not_lt_zero, if_false, h₁, ok_bind]
        exact ih h

theorem alone_of_operators {level : Nat} (h : operators depth level ⟨0, p⟩ = .ok (e, ⟨last, []⟩)) : Alone p e := by
  rw [operators] at h
  obtain ⟨⟨left, c⟩, h₁, h₂⟩ := bind_eq_ok.mp h
  have h₀ : operators depth 0 ⟨0, p⟩ = .ok (e, ⟨last, []⟩) := by
    rw [operators, h₁, ok_bind]
    exact joined_lower h₂
  have hexpr : expr (depth + 1) ⟨0, p⟩ = .ok (e, ⟨last, []⟩) := by
    rw [expr]
    simp only [h₀, ok_bind, Cursor.isAt_nil]
    rfl
  exact alone_of_expr hexpr

theorem alone_of_operand (h : operand depth ⟨0, p⟩ = .ok (e, ⟨last, []⟩)) : Alone p e := by
  have hoperators : operators depth 0 ⟨0, p⟩ = .ok (e, ⟨last, []⟩) := by
    rw [operators, h, ok_bind]
    exact joined_done nofun
  exact alone_of_operators hoperators

theorem atom_unsigned {c c' : Cursor} (h : atom depth c = .ok (e, c')) : c.peek?.bind Token.sign? = none := by
  rw [atom] at h
  split at h
  · rename_i hn
    rw [hn]
    rfl
  · rename_i hp
    rw [hp]
    rfl
  · cases hpeek : c.peek? with
    | none => rfl
    | some t =>
      rw [hpeek] at h
      cases t with
      | fixed f => cases f <;> first | rfl | cases h
      | _ => rfl

theorem alone_of_primary (h : primary depth ⟨0, p⟩ = .ok (e, ⟨last, []⟩)) : Alone p e := by
  have hoperand : operand depth ⟨0, p⟩ = .ok (e, ⟨last, []⟩) := by
    have hprimary := h
    rw [primary] at hprimary
    obtain ⟨⟨e', c⟩, hatom, -⟩ := bind_eq_ok.mp hprimary
    rw [operand.eq_def, atom_unsigned hatom]
    exact h
  exact alone_of_operand hoperand

theorem alone_of_atom (h : atom depth ⟨0, p⟩ = .ok (e, ⟨last, []⟩)) : Alone p e := by
  have hprimary : primary depth ⟨0, p⟩ = .ok (e, ⟨last, []⟩) := by
    rw [primary, h, ok_bind]
    exact chain_done ⟨nofun, nofun⟩
  exact alone_of_primary hprimary

end

/-! ## Reading elsewhere -/

def Meets (behind : List Lexeme) (r : List Lexeme) : Prop :=
  r = [] ∨ r.head? = behind.head?

theorem meets_append {p : List Lexeme} (hp : p ≠ []) (behind r : List Lexeme) : Meets (p ++ behind) (p ++ r) := by
  right
  rw [List.head?_append_of_ne_nil p hp, List.head?_append_of_ne_nil p hp]

theorem meets_cons (l : Lexeme) (behind r : List Lexeme) : Meets (l :: behind) (l :: r) :=
  .inr rfl

section

variable {c : Cursor} {r : List Lexeme}

theorem Meets.peek? (h : Meets c.rest r) (last : Nat) :
    (Cursor.mk last r).peek? = none ∨ (Cursor.mk last r).peek? = c.peek? := by
  rcases h with rfl | h
  · exact .inl rfl
  · right
    rw [Cursor.peek?, Cursor.peek?, h]

theorem Meets.isAt {f : Fixed} (h : Meets c.rest r) (hc : ¬ c.isAt f = true) (last : Nat) :
    (Cursor.mk last r).isAt f = false := by
  apply Cursor.isAt_false
  rw [← Cursor.peek?_eq]
  rcases h.peek? last with hpeek | hpeek <;> rw [hpeek]
  · nofun
  · rwa [ne_eq, ← Cursor.isAt_iff]

theorem Meets.apart (h : Meets c.rest r) (hdot : ¬ c.isAt .dot = true) (hparen : ¬ c.isAt .leftParen = true)
    (last : Nat) : Apart (Cursor.mk last r).tokens := by
  have hdot' := h.isAt hdot last
  have hparen' := h.isAt hparen last
  rw [← Bool.not_eq_true, Cursor.isAt_iff, Cursor.peek?_eq] at hdot' hparen'
  exact ⟨hdot', hparen'⟩

theorem Meets.below {level : Nat} (h : Meets c.rest r) (hc : Below level c.tokens) (last : Nat) :
    Below level (Cursor.mk last r).tokens := by
  intro precedence op hop
  rw [← Cursor.peek?_eq] at hop
  rcases h.peek? last with hpeek | hpeek <;> rw [hpeek] at hop
  · cases hop
  · exact hc precedence op (c.peek?_eq ▸ hop)

end

/-- Behind the lexemes `p`, of which `e` has been read, `f` goes on as `g` does: at `c`, and wherever else these
lexemes stand. -/
structure Comes (f : Cursor → Except ParseError (Expr × Cursor))
    (g : Expr → Cursor → Except ParseError (Expr × Cursor)) (c : Cursor) (p : List Lexeme) (e : Expr)
    (c' : Cursor) : Prop where
  nonempty : p ≠ []
  rest : c.rest = p ++ c'.rest
  last : c'.last = lastByte p
  goes : ∀ last r, Meets c'.rest r → f ⟨last, p ++ r⟩ = g e ⟨lastByte p, r⟩

abbrev Takes (f : Cursor → Except ParseError (Expr × Cursor)) : Cursor → List Lexeme → Expr → Cursor → Prop :=
  Comes f fun e c => .ok (e, c)

section

variable {f : Cursor → Except ParseError (Expr × Cursor)}
  {g g' : Expr → Cursor → Except ParseError (Expr × Cursor)} {c c₁ c₂ : Cursor} {p q : List Lexeme} {e e' : Expr}

theorem here_start (hp : p ≠ []) (last : Nat) (r : List Lexeme) :
    (Cursor.mk last (p ++ r)).here.start = firstByte p := by
  obtain ⟨l, p, rfl⟩ := List.exists_cons_of_ne_nil hp
  rfl

theorem Comes.start (h : Comes f g c p e c₁) : c.here.start = firstByte p := by
  rw [← here_start h.nonempty c.last c₁.rest, ← h.rest]

theorem Comes.since (h : Comes f g c p e c₁) : c₁.since c.here.start = stretch p := by
  rw [Cursor.since, h.start, h.last, stretch]

theorem Comes.next (h : Comes f g c p e c₁) (hq : q ≠ []) (hrest : c₁.rest = q ++ c₂.rest)
    (hlast : c₂.last = lastByte q)
    (hg : ∀ r, Meets c₂.rest r → g e ⟨lastByte p, q ++ r⟩ = g' e' ⟨lastByte q, r⟩) :
    Comes f g' c (p ++ q) e' c₂ where
  nonempty := by simp [hq]
  rest := by rw [h.rest, hrest, List.append_assoc]
  last := by rw [hlast, lastByte_append p hq]
  goes last r hr := by
    have hmeets : Meets c₁.rest (q ++ r) := hrest ▸ meets_append hq c₂.rest r
    rw [List.append_assoc, h.goes last _ hmeets, hg r hr, lastByte_append p hq]

theorem Comes.done (h : Comes f g c p e c₁)
    (hg : ∀ r, Meets c₁.rest r → g e ⟨lastByte p, r⟩ = .ok (e, ⟨lastByte p, r⟩)) : Takes f c p e c₁ where
  nonempty := h.nonempty
  rest := h.rest
  last := h.last
  goes last r hr := by rw [h.goes last r hr, hg r hr]

theorem Comes.alone (h : Comes f g c p e c₁) (hg : g e ⟨lastByte p, []⟩ = .ok (e, ⟨lastByte p, []⟩)) :
    f ⟨0, p⟩ = .ok (e, ⟨lastByte p, []⟩) := by
  have hgoes := h.goes 0 [] (.inl rfl)
  rwa [List.append_nil, hg] at hgoes

theorem Comes.peek? (h : Comes f g c p e c₁) (last : Nat) (r : List Lexeme) :
    (Cursor.mk last (p ++ r)).peek? = c.peek? := by
  rw [Cursor.peek?, Cursor.peek?, h.rest, List.head?_append_of_ne_nil p h.nonempty,
    List.head?_append_of_ne_nil p h.nonempty]

end

/-! ## Lexemes around an expression -/

theorem Expr.span_withSpan (s : Span) (e : Expr) : (e.withSpan s).span = s := by
  cases e <;> rfl

theorem Expr.span_signed (op : UnaryOp) (e : Expr) (s : Span) : (Expr.signed op e s).span = s := by
  unfold Expr.signed
  split <;> rfl

theorem covers_withSpan {p before after : List Lexeme} {e : Expr} (h : Covers p e) (hbefore : before ≠ [])
    (halone : Alone (before ++ (p ++ after)) (e.withSpan (stretch (before ++ (p ++ after))))) :
    Covers (before ++ (p ++ after)) (e.withSpan (stretch (before ++ (p ++ after)))) := by
  refine .node (by simp [hbefore]) halone (Expr.span_withSpan _ e) ?_
  have hparts : (e.withSpan (stretch (before ++ (p ++ after)))).parts = e.parts := by cases e <;> rfl
  rw [hparts]
  have hafter := h.parts.append (.nil after)
  rw [List.append_nil] at hafter
  exact hafter.before before

theorem covers_signed {p : List Lexeme} {l : Lexeme} {op : UnaryOp} {e : Expr} (h : Covers p e)
    (halone : Alone (l :: p) (.signed op e (stretch (l :: p)))) :
    Covers (l :: p) (.signed op e (stretch (l :: p))) := by
  refine .node (by simp) halone (Expr.span_signed op e _) ?_
  unfold Expr.signed
  split
  · exact .nil _
  · exact .nil _
  · exact h.all.before [l]

theorem leaf_takes {depth : Nat} {c : Cursor} {t : Token} (build : Span → Expr) (ht : c.peek? = some t)
    (hatom : ∀ d : Cursor, d.peek? = some t → atom depth d = .ok (build (d.next.since d.here.start), d.next))
    (hspan : ∀ span, (build span).span = span) (hparts : ∀ span, (build span).parts = []) :
    ∃ p, Takes (atom depth) c p (build (c.next.since c.here.start)) c.next ∧
      Covers p (build (c.next.since c.here.start)) := by
  obtain ⟨l, hl, rfl, hlast, hstart⟩ := Cursor.of_peek? ht
  have htakes : Takes (atom depth) c [l] (build (c.next.since c.here.start)) c.next := by
    refine ⟨by simp, hl, hlast, fun last r _ => ?_⟩
    rw [List.singleton_append, hatom ⟨last, l :: r⟩ rfl, hstart, Cursor.since, Cursor.since, hlast]
    rfl
  refine ⟨[l], htakes, .node (by simp) (alone_of_atom (htakes.alone rfl)) ?_ ?_⟩
  · rw [hspan, htakes.since]
  · rw [hparts]
    exact .nil _

/-! ## Arguments -/

structure TakesAll (argument : Cursor → Except ParseError (Expr × Cursor)) (c : Cursor) (p : List Lexeme)
    (done args : List Expr) (c' : Cursor) : Prop where
  nonempty : p ≠ []
  rest : c.rest = p ++ c'.rest
  last : c'.last = lastByte p
  goes : ∀ last r (bound : List Lexeme), (p ++ r).length ≤ bound.length →
    arguments argument bound ⟨last, p ++ r⟩ done = .ok (args, ⟨lastByte p, r⟩)

section

variable {argument : Cursor → Except ParseError (Expr × Cursor)} {c c₁ c₂ c' : Cursor} {p q : List Lexeme} {e : Expr}
  {done args : List Expr}

theorem takesAll_none (h : c.isAt .rightParen = true) (done : List Expr) :
    ∃ l, TakesAll argument c [l] done done.reverse c.next := by
  obtain ⟨l, hl, htoken, hlast, -⟩ := Cursor.of_isAt h
  refine ⟨l, List.cons_ne_nil l [], hl, hlast, fun last r bound _ => ?_⟩
  unfold arguments
  rw [List.singleton_append, Cursor.isAt_cons htoken]
  rfl

theorem Comes.open_paren (h : Takes argument c p e c₁) (hopen : ¬ c.isAt .rightParen = true) (last : Nat)
    (r : List Lexeme) : (Cursor.mk last (p ++ r)).isAt .rightParen = false := by
  rw [← Bool.not_eq_true, Cursor.isAt_iff, h.peek? last r, ← Cursor.isAt_iff]
  exact hopen

theorem takesAll_last (h : Takes argument c p e c₁) (hopen : ¬ c.isAt .rightParen = true)
    (hclose : c₁.isAt .rightParen = true) (done : List Expr) :
    ∃ l, TakesAll argument c (p ++ [l]) done (e :: done).reverse c₁.next := by
  obtain ⟨l, hl, htoken, hlast, -⟩ := Cursor.of_isAt hclose
  have hend : lastByte (p ++ [l]) = l.span.stop := lastByte_append p (List.cons_ne_nil l [])
  refine ⟨l, by simp, by rw [h.rest, hl, List.append_assoc]; rfl, hlast.trans hend.symm, fun last r bound _ => ?_⟩
  have hgoes := h.goes last (l :: r) (hl ▸ meets_cons l c₁.next.rest r)
  unfold arguments
  rw [List.append_assoc, List.singleton_append, h.open_paren hopen, hgoes, hend]
  simp only [Bool.false_eq_true, if_false, ok_bind, Cursor.isAt_cons htoken, beq_self_eq_true, if_true, Cursor.next]
  rfl

theorem takesAll_more (h : Takes argument c p e c₁) (hopen : ¬ c.isAt .rightParen = true)
    (hcomma : c₁.expect .comma = .ok c₂) (hrest : TakesAll argument c₂ q (e :: done) args c') :
    ∃ l, TakesAll argument c (p ++ l :: q) done args c' := by
  obtain ⟨l, hl, htoken, hlast⟩ := Cursor.of_expect hcomma
  have hend : lastByte (p ++ l :: q) = lastByte q := by
    rw [lastByte_append p (by simp), lastByte_cons l hrest.nonempty]
  refine ⟨l, by simp, by rw [h.rest, hl, hrest.rest, List.append_assoc]; rfl, hrest.last.trans hend.symm,
    fun last r bound hbound => ?_⟩
  have hgoes := h.goes last (l :: (q ++ r)) (hl ▸ meets_cons l c₂.rest (q ++ r))
  obtain ⟨b, bound, rfl⟩ : ∃ b rest, bound = b :: rest :=
    List.exists_cons_of_length_pos (by simp at hbound; omega)
  have hroom : (q ++ r).length ≤ bound.length := by
    simp only [List.length_append, List.length_cons] at hbound ⊢
    omega
  unfold arguments
  rw [List.append_assoc, List.cons_append, h.open_paren hopen, hgoes, hend]
  simp only [Bool.false_eq_true, if_false, ok_bind, Cursor.isAt_cons htoken, Cursor.expect_cons htoken,
    hrest.goes _ r bound hroom]
  rfl

end

theorem arguments_takes {argument : Cursor → Except ParseError (Expr × Cursor)}
    (ha : ∀ c e c', argument c = .ok (e, c') → ∃ p, Takes argument c p e c' ∧ Covers p e)
    {bound : List Lexeme} {c c' : Cursor} {done args : List Expr}
    (h : arguments argument bound c done = .ok (args, c')) :
    ∃ p es, args = done.reverse ++ es ∧ TakesAll argument c p done args c' ∧ CoversAll p es := by
  unfold arguments at h
  split at h
  · rename_i hparen
    cases h
    obtain ⟨l, htakes⟩ := takesAll_none hparen done
    exact ⟨[l], [], (List.append_nil _).symm, htakes, .nil [l]⟩
  · rename_i hparen
    obtain ⟨⟨e, c₁⟩, h₁, h⟩ := bind_eq_ok.mp h
    obtain ⟨p, hp, he⟩ := ha c e c₁ h₁
    dsimp only at h
    split at h
    · rename_i hclose
      cases h
      obtain ⟨l, htakes⟩ := takesAll_last hp hparen hclose done
      exact ⟨p ++ [l], [e], List.reverse_cons, htakes, he.all.append (.nil [l])⟩
    · obtain ⟨c₂, h₂, h⟩ := bind_eq_ok.mp h
      cases bound with
      | nil => cases h
      | cons b bound =>
        obtain ⟨q, es, hargs, hq, hes⟩ := arguments_takes ha h
        obtain ⟨l, htakes⟩ := takesAll_more hp hparen h₂ hq
        refine ⟨p ++ l :: q, e :: es, ?_, htakes, he.all.append (hes.before [l])⟩
        rw [hargs, List.reverse_cons, List.append_assoc, List.singleton_append]
termination_by structural bound

/-! ## Expressions -/

section

variable {depth : Nat} {c c₁ c₂ c₃ c₄ : Cursor} {p q r : List Lexeme} {condition yes no e : Expr}

theorem conditional_takes (hp : Takes (operators depth 0) c p condition c₁) (hquestion : c₁.isAt .question = true)
    (hq : Takes (expr depth) c₁.next q yes c₂) (hcolon : c₂.expect .colon = .ok c₃)
    (hr : Takes (expr depth) c₃ r no c₄) :
    ∃ l m, Takes (expr (depth + 1)) c (p ++ l :: (q ++ m :: r))
      (.conditional condition yes no (c₄.since c.here.start)) c₄ := by
  obtain ⟨l, hl, hltoken, -, -⟩ := Cursor.of_isAt hquestion
  obtain ⟨m, hm, hmtoken, -⟩ := Cursor.of_expect hcolon
  have hlast : lastByte (p ++ l :: (q ++ m :: r)) = lastByte r := by
    rw [lastByte_append p (by simp), lastByte_cons l (by simp), lastByte_append q (by simp),
      lastByte_cons m hr.nonempty]
  refine ⟨l, m, by simp, ?_, by rw [hr.last, hlast], fun last behind hbehind => ?_⟩
  · rw [hp.rest, hl, hq.rest, hm, hr.rest]
    simp
  · have h₁ := hp.goes last (l :: (q ++ m :: (r ++ behind))) (hl ▸ meets_cons l c₁.next.rest _)
    have h₂ := hq.goes l.span.stop (m :: (r ++ behind)) (hm ▸ meets_cons m c₃.rest _)
    have h₄ := hr.goes m.span.stop behind hbehind
    have hstart := here_start hp.nonempty last (l :: (q ++ m :: (r ++ behind)))
    rw [expr, hlast]
    simp only [List.append_assoc, List.cons_append, h₁, ok_bind, Cursor.isAt_cons hltoken, beq_self_eq_true, if_true,
      Cursor.next, h₂, Cursor.expect_cons hmtoken, h₄, hstart]
    rw [hp.start, Cursor.since, Cursor.since, hr.last]
    rfl

theorem parens_takes (hopen : c.peek? = some (.fixed .leftParen)) (hp : Takes (expr depth) c.next p e c₁)
    (hclose : c₁.expect .rightParen = .ok c₂) :
    ∃ l m, Takes (atom depth) c (l :: (p ++ [m])) (e.withSpan (c₂.since c.here.start)) c₂ := by
  obtain ⟨l, hl, hltoken, -, hstart⟩ := Cursor.of_peek? hopen
  obtain ⟨m, hm, hmtoken, hstop⟩ := Cursor.of_expect hclose
  have hlast : lastByte (l :: (p ++ [m])) = m.span.stop := by
    rw [lastByte_cons l (by simp), lastByte_append p (by simp)]
    rfl
  refine ⟨l, m, by simp, ?_, by rw [hstop, hlast], fun last behind _ => ?_⟩
  · rw [hl, hp.rest, hm]
    simp
  · have h₁ := hp.goes l.span.stop (m :: behind) (hm ▸ meets_cons m c₂.rest behind)
    rw [atom, hlast]
    simp only [List.cons_append, List.append_assoc, List.nil_append, Cursor.peek?, List.head?_cons, Option.map_some,
      hltoken, Cursor.next, h₁, ok_bind, Cursor.expect_cons hmtoken, hstart]
    rw [Cursor.since, Cursor.since, hstop]
    rfl

end

mutual

theorem expr_takes {depth : Nat} {c c' : Cursor} {e : Expr} (h : expr depth c = .ok (e, c')) :
    ∃ p, Takes (expr depth) c p e c' ∧ Covers p e := by
  cases depth with
  | zero =>
    rw [expr] at h
    cases h
  | succ depth =>
    simp only [expr] at h
    obtain ⟨⟨condition, c₁⟩, h₁, h⟩ := bind_eq_ok.mp h
    obtain ⟨p, hp, hcondition⟩ := operators_takes h₁
    dsimp only at h
    split at h
    · rename_i hq
      obtain ⟨⟨yes, c₂⟩, h₂, h⟩ := bind_eq_ok.mp h
      obtain ⟨c₃, h₃, h⟩ := bind_eq_ok.mp h
      obtain ⟨⟨no, c₄⟩, h₄, h⟩ := bind_eq_ok.mp h
      obtain ⟨p₂, hp₂, hyes⟩ := expr_takes h₂
      obtain ⟨p₄, hp₄, hno⟩ := expr_takes h₄
      obtain ⟨l, m, htakes⟩ := conditional_takes hp hq hp₂ h₃ hp₄
      cases h
      have hparts : CoversAll (p ++ l :: (p₂ ++ m :: p₄)) [condition, yes, no] :=
        hcondition.all.append ((hyes.all.append (hno.all.before [m])).before [l])
      exact ⟨_, htakes, .node htakes.nonempty (alone_of_expr (htakes.alone rfl)) htakes.since hparts⟩
    · rename_i hq
      cases h
      refine ⟨p, ⟨hp.nonempty, hp.rest, hp.last, fun last r hr => ?_⟩, hcondition⟩
      rw [expr]
      simp only [hp.goes last r hr, ok_bind, hr.isAt hq]
      rfl
termination_by (depth, 0)

theorem operators_takes {depth level : Nat} {c c' : Cursor} {e : Expr}
    (h : operators depth level c = .ok (e, c')) : ∃ p, Takes (operators depth level) c p e c' ∧ Covers p e := by
  simp only [operators] at h
  obtain ⟨⟨left, c₁⟩, h₁, h⟩ := bind_eq_ok.mp h
  obtain ⟨p, hp, hleft⟩ := operand_takes h₁
  have hcomes : Comes (operators depth level) (joined depth level c.here.start) c p left c₁ := by
    refine ⟨hp.nonempty, hp.rest, hp.last, fun last r hr => ?_⟩
    rw [operators, hp.goes last r hr, here_start hp.nonempty, hp.start]
    rfl
  exact joined_takes hcomes hleft h
termination_by (depth, 4)

theorem joined_takes {depth₀ depth level : Nat} {q : List Lexeme} {left e : Expr} {c c₁ c' : Cursor}
    (hc : Comes (operators depth₀ level) (joined depth level c.here.start) c q left c₁) (hleft : Covers q left)
    (h : joined depth level c.here.start left c₁ = .ok (e, c')) :
    ∃ p, Takes (operators depth₀ level) c p e c' ∧ Covers p e := by
  have hdone (hbelow : Below level c₁.tokens) : Takes (operators depth₀ level) c q left c₁ :=
    hc.done fun r hr => joined_done (hr.below hbelow _)
  rw [joined.eq_def] at h
  split at h
  · rename_i hnone
    cases h
    refine ⟨q, hdone ?_, hleft⟩
    rw [Below, ← Cursor.peek?_eq, hnone]
    nofun
  · rename_i precedence op hop
    split at h
    · rename_i hlevel
      cases h
      refine ⟨q, hdone ?_, hleft⟩
      rw [Below, ← Cursor.peek?_eq, hop]
      rintro _ _ ⟨⟩
      exact hlevel
    · rename_i hlevel
      cases depth with
      | zero => cases h
      | succ depth =>
        obtain ⟨⟨right, c₂⟩, h₂, h⟩ := bind_eq_ok.mp h
        obtain ⟨t, ht, hop⟩ := Option.bind_eq_some_iff.mp hop
        obtain ⟨l, hl, rfl, -, -⟩ := Cursor.of_peek? ht
        obtain ⟨p, hp, hright⟩ := operators_takes h₂
        have hnext : Comes (operators depth₀ level) (joined depth level c.here.start) c (q ++ l :: p)
            (.binary op left right (c₂.since c.here.start)) c₂ := by
          refine hc.next (by simp) (by rw [hl, hp.rest]; rfl) (by rw [hp.last, lastByte_cons l hp.nonempty]) ?_
          intro r hr
          rw [joined.eq_def]
          simp only [List.cons_append, Cursor.peek?, List.head?_cons, Option.map_some, Option.bind_some, hop, hlevel,
            if_false, Cursor.next, hp.goes _ r hr, ok_bind, lastByte_cons l hp.nonempty]
          rw [Cursor.since, Cursor.since, hp.last]
        have halone := hnext.alone (joined_done nofun)
        have hparts := hleft.all.append (hright.all.before [l])
        exact joined_takes hnext (.node hnext.nonempty (alone_of_operators halone) hnext.since hparts) h
termination_by (depth, 0)

theorem operand_takes {depth : Nat} {c c' : Cursor} {e : Expr} (h : operand depth c = .ok (e, c')) :
    ∃ p, Takes (operand depth) c p e c' ∧ Covers p e := by
  rw [operand] at h
  split at h
  · rename_i hnone
    obtain ⟨p, hp, he⟩ := primary_takes h
    refine ⟨p, ⟨hp.nonempty, hp.rest, hp.last, fun last r hr => ?_⟩, he⟩
    rw [operand.eq_def, hp.peek? last r, hnone]
    exact hp.goes last r hr
  · rename_i op hop
    cases depth with
    | zero => cases h
    | succ depth =>
      obtain ⟨⟨e', c₁⟩, h₁, h⟩ := bind_eq_ok.mp h
      obtain ⟨t, ht, hsign⟩ := Option.bind_eq_some_iff.mp hop
      obtain ⟨l, hl, rfl, -, hstart⟩ := Cursor.of_peek? ht
      obtain ⟨p, hp, he⟩ := operand_takes h₁
      cases h
      have htakes : Takes (operand (depth + 1)) c (l :: p) (.signed op e' (c'.since c.here.start)) c' := by
        refine ⟨by simp, by rw [hl, hp.rest]; rfl, by rw [hp.last, lastByte_cons l hp.nonempty], ?_⟩
        intro last r hr
        rw [operand]
        simp only [List.cons_append, Cursor.peek?, List.head?_cons, Option.map_some, Option.bind_some, hsign,
          Cursor.next, hp.goes _ r hr, ok_bind, lastByte_cons l hp.nonempty, Cursor.since, hp.last, hstart]
        rfl
      have hspan := htakes.since
      rw [hspan] at htakes ⊢
      exact ⟨l :: p, htakes, covers_signed he (alone_of_operand (htakes.alone rfl))⟩
termination_by (depth, 3)

theorem primary_takes {depth : Nat} {c c' : Cursor} {e : Expr} (h : primary depth c = .ok (e, c')) :
    ∃ p, Takes (primary depth) c p e c' ∧ Covers p e := by
  simp only [primary] at h
  obtain ⟨⟨e', c₁⟩, h₁, h⟩ := bind_eq_ok.mp h
  obtain ⟨p, hp, he'⟩ := atom_takes h₁
  have hcomes : Comes (primary depth) (chain depth c.here.start) c p e' c₁ := by
    refine ⟨hp.nonempty, hp.rest, hp.last, fun last r hr => ?_⟩
    rw [primary, hp.goes last r hr, here_start hp.nonempty, hp.start]
    rfl
  exact chain_takes hcomes he' h
termination_by (depth, 2)

theorem chain_takes {depth₀ depth : Nat} {q : List Lexeme} {e e' : Expr} {c c₁ c' : Cursor}
    (hc : Comes (primary depth₀) (chain depth c.here.start) c q e c₁) (he : Covers q e)
    (h : chain depth c.here.start e c₁ = .ok (e', c')) : ∃ p, Takes (primary depth₀) c p e' c' ∧ Covers p e' := by
  rw [chain.eq_def] at h
  split at h
  · rename_i hdot
    cases depth with
    | zero => cases h
    | succ depth =>
      obtain ⟨⟨name, c₂⟩, h₂, h⟩ := bind_eq_ok.mp h
      obtain ⟨l, hl, htoken, -, -⟩ := Cursor.of_isAt hdot
      obtain ⟨m, hm, hname, hlast⟩ := Cursor.of_name h₂
      have hnext : Comes (primary depth₀) (chain depth c.here.start) c (q ++ [l, m])
          (.field e name (c₂.since c.here.start)) c₂ := by
        refine hc.next (by simp) (by rw [hl, hm]; rfl) hlast ?_
        intro r hr
        rw [chain.eq_def]
        simp only [List.cons_append, List.nil_append, Cursor.isAt_cons htoken, beq_self_eq_true, if_true, Cursor.next,
          Cursor.name_cons hname, ok_bind]
        rw [Cursor.since, Cursor.since, hlast]
        rfl
      have halone := hnext.alone (chain_done ⟨nofun, nofun⟩)
      have hparts := he.all.append (.nil [l, m])
      exact chain_takes hnext (.node hnext.nonempty (alone_of_primary halone) hnext.since hparts) h
  · rename_i hdot
    split at h
    · rename_i hparen
      split at h
      · cases h
      · cases h
      · rename_i function depth hfunction
        obtain ⟨⟨args, c₂⟩, h₂, h⟩ := bind_eq_ok.mp h
        obtain ⟨l, hl, htoken, -, -⟩ := Cursor.of_isAt hparen
        obtain ⟨p, es, rfl, hp, hes⟩ := arguments_takes (fun _ _ _ hx => expr_takes hx) h₂
        have hnext : Comes (primary depth₀) (chain depth c.here.start) c (q ++ l :: p)
            (.call function args (c₂.since c.here.start)) c₂ := by
          refine hc.next (by simp) (by rw [hl, hp.rest]; rfl) (by rw [hp.last, lastByte_cons l hp.nonempty]) ?_
          intro r hr
          rw [chain.eq_def]
          simp only [List.cons_append, Cursor.isAt_cons htoken, hfunction, Cursor.next,
            hp.goes _ r (l :: (p ++ r)) (Nat.le_succ _), ok_bind, lastByte_cons l hp.nonempty]
          rw [Cursor.since, Cursor.since, hp.last]
          rfl
        have halone := hnext.alone (chain_done ⟨nofun, nofun⟩)
        have hparts := (hes.before [l]).before q
        exact chain_takes hnext (.node hnext.nonempty (alone_of_primary halone) hnext.since hparts) h
    · rename_i hparen
      cases h
      exact ⟨q, hc.done fun r hr => chain_done (hr.apart hdot hparen _), he⟩
termination_by (depth, 0)

theorem atom_takes {depth : Nat} {c c' : Cursor} {e : Expr} (h : atom depth c = .ok (e, c')) :
    ∃ p, Takes (atom depth) c p e c' ∧ Covers p e := by
  simp only [atom] at h
  split at h
  · rename_i n hn
    cases h
    refine leaf_takes (.name n) hn (fun d hd => ?_) (fun _ => rfl) fun _ => rfl
    rw [atom, hd]
  · rename_i hparen
    obtain ⟨⟨e', c₁⟩, h₁, h⟩ := bind_eq_ok.mp h
    obtain ⟨c₂, h₂, h⟩ := bind_eq_ok.mp h
    obtain ⟨p, hp, he'⟩ := expr_takes h₁
    obtain ⟨l, m, htakes⟩ := parens_takes hparen hp h₂
    cases h
    have hspan := htakes.since
    rw [hspan] at htakes ⊢
    exact ⟨_, htakes, covers_withSpan he' (List.cons_ne_nil l []) (alone_of_atom (htakes.alone rfl))⟩
  · split at h
    · rename_i l hl
      obtain ⟨t, ht, hliteral⟩ := Option.bind_eq_some_iff.mp hl
      cases h
      refine leaf_takes (.literal l) ht (fun d hd => ?_) (fun _ => rfl) fun _ => rfl
      rw [atom, hd]
      cases t with
      | fixed f => cases f <;> cases hliteral <;> rfl
      | name n => cases hliteral
      | _ => cases hliteral; rfl
    · cases h
termination_by (depth, 1)

end

end FactFold.Script
