import FactFold.Proofs.Script.Grammar.Expressions
import FactFold.Proofs.Script.Grammar.Soundness

open Filter

namespace FactFold.Script

open Grammar

theorem endOfStatement_complete {us next : List Token} {c : Cursor} (h : Closing us next)
    (ht : c.tokens = us ++ next) : ∃ c', endOfStatement c = .ok c' ∧ c'.tokens = next := by
  unfold endOfStatement
  cases h with
  | semicolon =>
    refine ⟨c.next, ?_, Cursor.tokens_next ht⟩
    rw [Cursor.isAt_fixed ht]
    rfl
  | brace =>
    refine ⟨c, ?_, ht⟩
    rw [Cursor.isAt_fixed ht, Cursor.isAt_fixed ht]
    simp
  | finish =>
    refine ⟨c, ?_, ht⟩
    rw [Cursor.isAt_false (by simp [ht]), c.peek?_eq, ht]
    rfl

theorem value_complete {ts us next : List Token} {e : Expr} {c : Cursor} (h : Expression ts e)
    (hc : Closing us next) (ht : c.tokens = ts ++ (us ++ next)) :
    ∃ e' c₁ c₂, e'.bare = e ∧ endOfStatement c₁ = .ok c₂ ∧ c₂.tokens = next ∧
      ∀ᶠ depth in atTop, expr depth c = .ok (e', c₁) := by
  obtain ⟨e', c₁, he, hc₁, hread⟩ := expr_complete h ht hc.ends
  obtain ⟨c₂, hend, hc₂⟩ := endOfStatement_complete hc hc₁
  exact ⟨e', c₁, c₂, he, hend, hc₂, hread⟩

section

variable {start : Nat} {type : Option String} {place : Place} {name : String} {ts us next : List Token}
  {e : Expr} {c : Cursor}

theorem declaration_complete (hc : Closing us next) (ht : c.tokens = .name name :: (us ++ next)) :
    Accepts (declaration · start type place c) Stmt.bare (.declare name type none ⟨0, 0⟩) next := by
  have ht₁ := Cursor.tokens_next ht
  obtain ⟨c', hend, hc'⟩ := endOfStatement_complete hc ht₁
  refine ⟨.declare name type none (c.next.since start), c', rfl, hc', .of_forall fun depth => ?_⟩
  have hq : c.next.isAt .equal = false := hc.isAt ht₁ (by decide)
  simp only [declaration, Cursor.name_ok ht, ok_bind, initialValue, hq, Bool.false_eq_true, if_false, hend]
  rfl

theorem declaration_value_complete (h : Expression ts e) (hc : Closing us next)
    (ht : c.tokens = .name name :: .fixed .equal :: (ts ++ (us ++ next))) :
    Accepts (declaration · start type place c) Stmt.bare (.declare name type (some e) ⟨0, 0⟩) next := by
  have ht₁ := Cursor.tokens_next ht
  obtain ⟨e', c₁, c₂, he, hend, hc₂, hread⟩ := value_complete h hc (Cursor.tokens_next ht₁)
  refine ⟨.declare name type (some e') (c₁.since start), c₂, by rw [Stmt.bare, Option.map_some, he],
    hc₂, ?_⟩
  filter_upwards [hread] with depth h₁
  have hq : c.next.isAt .equal = true := Cursor.isAt_fixed ht₁ .equal
  simp only [declaration, Cursor.name_ok ht, ok_bind, initialValue, hq, if_true, h₁, Except.map, hend]
  rfl

theorem assignment_complete {op : AssignOp} (h : Expression ts e) (hc : Closing us next)
    (ht : c.tokens = ts ++ (us ++ next)) :
    Accepts (assignment · start name op c) Stmt.bare (.assign name op e ⟨0, 0⟩) next := by
  obtain ⟨e', c₁, c₂, he, hend, hc₂, hread⟩ := value_complete h hc ht
  refine ⟨.assign name op e' (c₁.since start), c₂, by rw [Stmt.bare, he], hc₂, ?_⟩
  filter_upwards [hread] with depth h₁
  simp only [assignment, h₁, ok_bind, hend]
  rfl

theorem returned_complete (hc : Closing us next) (ht : c.tokens = us ++ next) :
    Accepts (returned · c) Stmt.bare (.ret none) next := by
  obtain ⟨c', hend, hc'⟩ := endOfStatement_complete hc ht
  refine ⟨.ret none, c', rfl, hc', .of_forall fun depth => ?_⟩
  have hclosed : (c.peek?.isNone || c.isAt .semicolon || c.isAt .rightBrace) = true := by
    rw [Cursor.peek?_eq, ht]
    cases hc with
    | semicolon => simp [Cursor.isAt_fixed ht]
    | brace => simp [Cursor.isAt_fixed ht]
    | finish => rfl
  simp only [returned, hclosed, if_true, hend, ok_bind]
  rfl

theorem returned_value_complete (h : Expression ts e) (hc : Closing us next)
    (ht : c.tokens = ts ++ (us ++ next)) : Accepts (returned · c) Stmt.bare (.ret (some e)) next := by
  obtain ⟨e', c₁, c₂, he, hend, hc₂, hread⟩ := value_complete h hc ht
  refine ⟨.ret (some e'), c₂, by rw [Stmt.bare, Option.map_some, he], hc₂, ?_⟩
  filter_upwards [hread] with depth h₁
  have hstarts := ht ▸ h.starts.append (us ++ next)
  have hsemicolon : c.isAt .semicolon = false := hstarts.isAt (by decide)
  have hbrace : c.isAt .rightBrace = false := hstarts.isAt (by decide)
  have hopen : (c.peek?.isNone || c.isAt .semicolon || c.isAt .rightBrace) = false := by
    obtain ⟨t, rest, hrest, -⟩ := hstarts
    simp [hsemicolon, hbrace, Cursor.peek?_eq, hrest]
  simp only [returned, hopen, Bool.false_eq_true, if_false, h₁, ok_bind, hend]
  rfl

end

theorem simpleStatement_expr {depth : Nat} {c : Cursor} (hvar : c.isAt .varWord = false)
    (hret : c.isAt .returnWord = false)
    (hname : ∀ n t rest, c.tokens = .name n :: t :: rest →
      ∃ f, t = .fixed f ∧ f ∉ [Fixed.equal, .plusEqual, .minusEqual]) :
    simpleStatement depth c = do
      let (e, c) ← expr depth c
      let c ← endOfStatement c
      return (.expr e, c) := by
  have hsecond {n : String} {t : Token} {rest : List Token} (ha : c.ahead = .name n :: t :: rest) :
      ∃ f, t = .fixed f ∧ f ∉ [Fixed.equal, .plusEqual, .minusEqual] := by
    obtain ⟨us, hus⟩ := Cursor.ahead_next ha
    exact hname n t _ (by rw [Cursor.tokens_of_ahead ha, Cursor.tokens_of_ahead hus])
  unfold simpleStatement
  split
  · rename_i ha
    cases hvar.symm.trans (Cursor.isAt_fixed (Cursor.tokens_of_ahead ha) .varWord)
  · rename_i ha
    cases hret.symm.trans (Cursor.isAt_fixed (Cursor.tokens_of_ahead ha) .returnWord)
  · rename_i ha
    obtain ⟨f, ⟨⟩, hf⟩ := hsecond ha
    exact (hf (by decide)).elim
  · rename_i ha
    obtain ⟨f, ⟨⟩, hf⟩ := hsecond ha
    exact (hf (by decide)).elim
  · rename_i ha
    obtain ⟨f, ⟨⟩, hf⟩ := hsecond ha
    exact (hf (by decide)).elim
  · rename_i ha
    obtain ⟨f, ⟨⟩, hf⟩ := hsecond ha
  · rename_i ha
    obtain ⟨f, ⟨⟩, hf⟩ := hsecond ha
  · rfl

theorem simple_complete {ts us next : List Token} {s : Stmt} {c : Cursor} (h : Simple ts s)
    (hc : Closing us next) (ht : c.tokens = ts ++ (us ++ next)) :
    Accepts (simpleStatement · c) Stmt.bare s next := by
  cases h with
  | expr h =>
    obtain ⟨e', c₁, c₂, he, hend, hc₂, hread⟩ := value_complete h hc ht
    refine ⟨.expr e', c₂, by rw [Stmt.bare, he], hc₂, ?_⟩
    filter_upwards [hread] with depth h₁
    have hstarts := ht ▸ h.starts.append (us ++ next)
    rw [simpleStatement_expr (hstarts.isAt (by decide)) (hstarts.isAt (by decide))
      fun n t rest hrest => h.second_closed hc (ht.symm.trans hrest)]
    simp only [h₁, ok_bind, hend]
    rfl
  | ret =>
    simp only [simpleStatement, Cursor.ahead_eq, ht]
    exact returned_complete hc (Cursor.tokens_next ht)
  | retValue h =>
    simp only [simpleStatement, Cursor.ahead_eq, ht]
    exact returned_value_complete h hc (Cursor.tokens_next ht)
  | assign target ha h =>
    have hvalue := Cursor.tokens_next (Cursor.tokens_next ht)
    simp only [simpleStatement, Cursor.ahead_eq, ht]
    cases ha <;> exact assignment_complete h hc hvalue
  | declare name =>
    simp only [simpleStatement, Cursor.ahead_eq, ht]
    exact declaration_complete hc (Cursor.tokens_next ht)
  | declareValue name h =>
    simp only [simpleStatement, Cursor.ahead_eq, ht]
    exact declaration_value_complete h hc (Cursor.tokens_next ht)
  | typedValue type name h =>
    simp only [simpleStatement, Cursor.ahead_eq, ht]
    exact declaration_value_complete h hc (Cursor.tokens_next ht)

theorem typed_complete (type name : String) {next : List Token} {c : Cursor}
    (ht : c.tokens = .name type :: .name name :: .fixed .semicolon :: next) :
    Accepts (simpleStatement · c) Stmt.bare (.declare name (some type) none ⟨0, 0⟩) next := by
  simp only [simpleStatement, Cursor.ahead_eq, ht]
  exact declaration_complete (.semicolon next) (Cursor.tokens_next ht)

theorem bound_next {c c' : Cursor} {bound : List Lexeme} (h : c'.tokens.length < c.tokens.length)
    (hb : c.rest.length ≤ bound.length) : ∃ l rest, bound = l :: rest ∧ c'.rest.length ≤ rest.length := by
  rw [c.tokens_length, c'.tokens_length] at h
  cases bound with
  | nil => exact absurd h (by simp [List.eq_nil_of_length_eq_zero (Nat.le_zero.mp hb)])
  | cons l rest =>
    rw [List.length_cons] at hb
    exact ⟨l, rest, rfl, by omega⟩

theorem Grammar.Statement.length_lt {ts us next : List Token} {s : Stmt} (h : Statement ts s next) :
    us.length < (ts ++ us).length := by
  obtain ⟨t, ts', rfl, -⟩ := h.starts
  simp

mutual

theorem statement_complete {ts next : List Token} {s : Stmt} {c : Cursor} (h : Statement ts s next)
    (ht : c.tokens = ts ++ next) : Accepts (statement · c) Stmt.bare s next := by
  match h with
  | @Statement.simple ts us _ _ h hc =>
    have ht₁ : c.tokens = ts ++ (us ++ next) := by simpa using ht
    obtain ⟨s', c', hs, hc', hread⟩ := simple_complete h hc ht₁
    refine ⟨s', c', hs, hc', ?_⟩
    filter_upwards [hread] with depth h₁
    have hif : c.isAt .ifWord = false := (ht₁ ▸ h.starts.append (us ++ next)).isAt (by decide)
    rw [statement, hif]
    exact h₁
  | .typed type name next =>
    obtain ⟨s', c', hs, hc', hread⟩ := typed_complete type name ht
    refine ⟨s', c', hs, hc', ?_⟩
    filter_upwards [hread] with depth h₁
    rw [statement, Cursor.isAt_false (by simp [ht])]
    exact h₁
  | @Statement.branch cs ts _ _ _ hc hy he =>
    have ht₁ : c.tokens =
        .fixed .ifWord :: .fixed .leftParen :: (cs ++ .fixed .rightParen :: (ts ++ next)) := by
      simpa using ht
    have hc₁ := Cursor.tokens_next ht₁
    obtain ⟨condition', c₂, hcondition, hc₂, hread₂⟩ := expr_complete hc (Cursor.tokens_next hc₁)
      (ends_cons (by decide) _)
    obtain ⟨yes', c₃, hyes, hc₃, hread₃⟩ := body_complete hy (Cursor.tokens_next hc₂)
    refine ⟨.branch condition' yes' none, c₃, by rw [Stmt.bare, hcondition, hyes], hc₃, ?_⟩
    filter_upwards [hread₂, hread₃] with depth h₂ h₃
    have hif : c.isAt .ifWord = true := Cursor.isAt_fixed ht₁ .ifWord
    have helse : c₃.isAt .elseWord = false := Cursor.isAt_false (hc₃ ▸ he)
    simp only [statement, hif, if_true, Cursor.expect_ok hc₁, ok_bind, h₂, Cursor.expect_ok hc₂, h₃, helse]
    rfl
  | @Statement.branchElse cs ts us _ _ _ _ hc hy hn =>
    have ht₁ : c.tokens = .fixed .ifWord :: .fixed .leftParen ::
        (cs ++ .fixed .rightParen :: (ts ++ .fixed .elseWord :: (us ++ next))) := by
      simpa using ht
    have hc₁ := Cursor.tokens_next ht₁
    obtain ⟨condition', c₂, hcondition, hc₂, hread₂⟩ := expr_complete hc (Cursor.tokens_next hc₁)
      (ends_cons (by decide) _)
    obtain ⟨yes', c₃, hyes, hc₃, hread₃⟩ := body_complete hy (Cursor.tokens_next hc₂)
    obtain ⟨no', c₄, hno, hc₄, hread₄⟩ := body_complete hn (Cursor.tokens_next hc₃)
    refine ⟨.branch condition' yes' (some no'), c₄, by rw [Stmt.bare, hcondition, hyes, hno], hc₄, ?_⟩
    filter_upwards [hread₂, hread₃, hread₄] with depth h₂ h₃ h₄
    have hif : c.isAt .ifWord = true := Cursor.isAt_fixed ht₁ .ifWord
    have helse : c₃.isAt .elseWord = true := Cursor.isAt_fixed hc₃ .elseWord
    simp only [statement, hif, if_true, Cursor.expect_ok hc₁, ok_bind, h₂, Cursor.expect_ok hc₂, h₃, helse,
      h₄]
    rfl
termination_by structural h

theorem body_complete {ts next : List Token} {ss : List Stmt} {c : Cursor} (h : Body ts ss next)
    (ht : c.tokens = ts ++ next) : Accepts (body · c) bareBlock ss next := by
  match h with
  | @Body.block ts _ _ h =>
    have ht₁ : c.tokens = .fixed .leftBrace :: (ts ++ .fixed .rightBrace :: next) := by simpa using ht
    have hc₁ := Cursor.tokens_next ht₁
    have hb : c.next.rest.length ≤ c.rest.length := by
      simp [← Cursor.tokens_length, hc₁, ht₁]
    obtain ⟨ss', c', hss, hc', hread⟩ := block_complete h rfl hc₁ hb
    refine ⟨ss', c', hss, hc', ?_⟩
    filter_upwards [eventually_succ (hread [])] with depth hdepth
    obtain ⟨depth, rfl, h₁⟩ := hdepth
    have hl : c.isAt .leftBrace = true := Cursor.isAt_fixed ht₁ .leftBrace
    simp only [body, hl, if_true]
    exact h₁
  | .single h =>
    obtain ⟨s', c', hs, hc', hread⟩ := statement_complete h ht
    refine ⟨[s'], c', by rw [bareBlock, bareBlock, hs], hc', ?_⟩
    filter_upwards [eventually_succ hread] with depth hdepth
    obtain ⟨depth, rfl, h₁⟩ := hdepth
    have hl : c.isAt .leftBrace = false := (ht ▸ h.starts.append next).isAt (by decide)
    simp only [body, hl, Bool.false_eq_true, if_false, h₁]
    rfl
termination_by structural h

theorem block_complete {ts us next : List Token} {ss : List Stmt} {c : Cursor} {bound : List Lexeme}
    (h : Statements ts ss us) (hus : us = .fixed .rightBrace :: next) (ht : c.tokens = ts ++ us)
    (hb : c.rest.length ≤ bound.length) :
    ∃ ss' c', bareBlock ss' = ss ∧ c'.tokens = next ∧
      ∀ done, ∀ᶠ depth in atTop, block depth bound c done = .ok (done.reverse ++ ss', c') := by
  match h with
  | .nil _ =>
    rw [hus] at ht
    refine ⟨[], c.next, rfl, Cursor.tokens_next ht, fun done => .of_forall fun depth => ?_⟩
    have hr : c.isAt .rightBrace = true := Cursor.isAt_fixed ht .rightBrace
    rw [block.eq_def]
    simp [hr]
  | @Statements.stray ts _ _ h =>
    have ht₁ := Cursor.tokens_next ht
    have hlt : c.next.tokens.length < c.tokens.length := by
      rw [ht, ht₁]
      exact Nat.lt_succ_self _
    obtain ⟨l, bound, rfl, hb₁⟩ := bound_next hlt hb
    obtain ⟨ss', c', hss, hc', hread⟩ := block_complete h hus ht₁ hb₁
    refine ⟨ss', c', hss, hc', fun done => ?_⟩
    filter_upwards [hread done] with depth h₁
    have hr : c.isAt .rightBrace = false := Cursor.isAt_fixed ht .rightBrace
    have hsemi : c.isAt .semicolon = true := Cursor.isAt_fixed ht .semicolon
    rw [block.eq_def]
    simp [hr, hsemi, Cursor.peek?_eq, ht, h₁]
  | @Statements.cons ts vs _ s ss hs h =>
    have ht₁ : c.tokens = ts ++ (vs ++ us) := by simpa using ht
    obtain ⟨s', c₁, hs', hc₁, hread⟩ := statement_complete hs ht₁
    have hlt : c₁.tokens.length < c.tokens.length := by
      rw [ht₁, hc₁]
      exact hs.length_lt
    obtain ⟨l, bound, rfl, hb₁⟩ := bound_next hlt hb
    obtain ⟨ss', c₂, hss, hc₂, hread₂⟩ := block_complete h hus hc₁ hb₁
    refine ⟨s' :: ss', c₂, by rw [bareBlock, hs', hss], hc₂, fun done => ?_⟩
    filter_upwards [hread, hread₂ (s' :: done)] with depth h₁ h₂
    have hstarts := ht₁ ▸ hs.starts.append (vs ++ us)
    have hr : c.isAt .rightBrace = false := hstarts.isAt (by decide)
    have hsemi : c.isAt .semicolon = false := hstarts.isAt (by decide)
    obtain ⟨t, rest, hrest, -⟩ := hstarts
    rw [block.eq_def]
    simp [hr, hsemi, Cursor.peek?_eq, hrest, h₁, ok_bind, h₂]
termination_by structural h

theorem statements_complete {ts us : List Token} {ss : List Stmt} {c : Cursor} {bound : List Lexeme}
    (h : Statements ts ss us) (hus : us = []) (ht : c.tokens = ts ++ us)
    (hb : c.rest.length ≤ bound.length) :
    ∃ ss', bareBlock ss' = ss ∧
      ∀ done, ∀ᶠ depth in atTop, statements depth bound c done = .ok (done.reverse ++ ss') := by
  match h with
  | .nil _ =>
    refine ⟨[], rfl, fun done => .of_forall fun depth => ?_⟩
    rw [statements.eq_def]
    simp [Cursor.peek?_eq, ht, hus]
  | .stray h =>
    have ht₁ := Cursor.tokens_next ht
    have hlt : c.next.tokens.length < c.tokens.length := by
      rw [ht, ht₁]
      exact Nat.lt_succ_self _
    obtain ⟨l, bound, rfl, hb₁⟩ := bound_next hlt hb
    obtain ⟨ss', hss, hread⟩ := statements_complete h hus ht₁ hb₁
    refine ⟨ss', hss, fun done => ?_⟩
    filter_upwards [hread done] with depth h₁
    have hsemi : c.isAt .semicolon = true := Cursor.isAt_fixed ht .semicolon
    rw [statements.eq_def]
    simp [hsemi, Cursor.peek?_eq, ht, h₁]
  | @Statements.cons ts vs _ s ss hs h =>
    have ht₁ : c.tokens = ts ++ (vs ++ us) := by simpa using ht
    obtain ⟨s', c₁, hs', hc₁, hread⟩ := statement_complete hs ht₁
    have hlt : c₁.tokens.length < c.tokens.length := by
      rw [ht₁, hc₁]
      exact hs.length_lt
    obtain ⟨l, bound, rfl, hb₁⟩ := bound_next hlt hb
    obtain ⟨ss', hss, hread₂⟩ := statements_complete h hus hc₁ hb₁
    refine ⟨s' :: ss', by rw [bareBlock, hs', hss], fun done => ?_⟩
    filter_upwards [hread, hread₂ (s' :: done)] with depth h₁ h₂
    have hstarts := ht₁ ▸ hs.starts.append (vs ++ us)
    have hsemi : c.isAt .semicolon = false := hstarts.isAt (by decide)
    obtain ⟨t, rest, hrest, -⟩ := hstarts
    rw [statements.eq_def]
    simp [hsemi, Cursor.peek?_eq, hrest, h₁, ok_bind, h₂]
termination_by structural h

end

theorem parseScript_complete {ls : List Lexeme} {ss : List Stmt}
    (h : Derives (ls.map Lexeme.token) ss) :
    ∃ parsed, bareBlock parsed = ss ∧ ∀ᶠ depth in atTop, parseScript depth ls = .ok parsed := by
  obtain ⟨parsed, hbare, hread⟩ := statements_complete (c := .atStart ls) h rfl (List.append_nil _).symm le_rfl
  exact ⟨parsed, hbare, hread []⟩

theorem Grammar.Derives.unique {ts : List Token} {ss ss' : List Stmt} (h : Derives ts ss)
    (h' : Derives ts ss') : ss = ss' := by
  have hts : (ts.map fun t => (⟨t, 0, 0⟩ : Lexeme)).map Lexeme.token = ts := by
    simp [Function.comp_def]
  obtain ⟨parsed, hbare, hread⟩ := parseScript_complete (hts.symm ▸ h)
  obtain ⟨parsed', hbare', hread'⟩ := parseScript_complete (hts.symm ▸ h')
  obtain ⟨depth, hdepth, hdepth'⟩ := (hread.and hread').exists
  rw [← hbare, ← hbare', Except.ok.inj (hdepth.symm.trans hdepth')]

theorem parse_iff_derives (ls : List Lexeme) (ss : List Stmt) :
    (∃ depth parsed, parseScript depth ls = .ok parsed ∧ bareBlock parsed = ss) ↔
      Derives (ls.map Lexeme.token) ss := by
  constructor
  · rintro ⟨depth, parsed, hparse, rfl⟩
    exact parseScript_sound hparse
  · intro h
    obtain ⟨parsed, hbare, hread⟩ := parseScript_complete h
    obtain ⟨depth, hdepth⟩ := hread.exists
    exact ⟨depth, parsed, hdepth, hbare⟩

end FactFold.Script
