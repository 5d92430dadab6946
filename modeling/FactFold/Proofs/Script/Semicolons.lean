import FactFold.Proofs.Script.Grammar.NamePairs
import FactFold.Proofs.Script.Lockstep

/-!
A semicolon before the end of a script or before a closing brace may be left out, except behind a type and a
name: without a value they are a declaration only if the semicolon is there.
-/

namespace FactFold.Script

open Grammar

def Closed (ls : List Lexeme) : Prop :=
  ∀ l ∈ ls.head?, l.token = .fixed .rightBrace

def EndsInNames (ls : List Lexeme) : Prop :=
  ∃ ts a b, ls.map Lexeme.token = ts ++ [.name a, .name b]

def semicolon (span : Span) : Lexeme :=
  ⟨.fixed .semicolon, span⟩

theorem Closed.stop {ls : List Lexeme} (h : Closed ls) : Stop ls :=
  fun l hl => .inr (h l hl)

theorem stop_semicolon (span : Span) (ls : List Lexeme) : Stop (semicolon span :: ls) := by
  rintro l ⟨⟩
  exact .inl rfl

theorem Closed.cases {ls : List Lexeme} (h : Closed ls) :
    ls = [] ∨ ∃ b rest, ls = b :: rest ∧ b.token = .fixed .rightBrace := by
  cases ls with
  | nil => exact .inl rfl
  | cons b rest => exact .inr ⟨b, rest, rfl, h b rfl⟩

inductive Form where
  | declare
  | ret
  | assign (target : String) (op : AssignOp)
  | typed (type : String)
  | expr

def form : List Token → Form
  | .fixed .varWord :: _ => .declare
  | .fixed .returnWord :: _ => .ret
  | .name target :: .fixed .equal :: _ => .assign target .set
  | .name target :: .fixed .plusEqual :: _ => .assign target (.update .add)
  | .name target :: .fixed .minusEqual :: _ => .assign target (.update .sub)
  | [.name type, .name _, .fixed .equal] => .typed type
  | [.name type, .name _, .fixed .semicolon] => .typed type
  | _ => .expr

theorem simpleStatement_form (depth : Nat) (c : Cursor) :
    simpleStatement depth c =
      match form c.ahead with
      | .declare => declaration depth c.here.start none .afterVar c.next
      | .ret => returned depth c.next
      | .assign target op => assignment depth c.here.start target op c.next.next
      | .typed type => declaration depth c.here.start (some type) .asName c.next
      | .expr => do
        let (e, c) ← expr depth c
        let c ← endOfStatement c
        return (.expr e, c) := by
  unfold simpleStatement
  generalize c.ahead = ts
  split
  case h_8 => rw [form.eq_8] <;> assumption
  all_goals rfl

theorem form_assign {ts : List Token} {target : String} {op : AssignOp} (h : form ts = .assign target op) :
    ∃ f rest, ts = .name target :: .fixed f :: rest ∧ f ∈ [Fixed.equal, .plusEqual, .minusEqual] := by
  unfold form at h
  split at h <;> cases h <;> exact ⟨_, _, rfl, by decide⟩

theorem form_stop (t : Token) (ts : List Token)
    (h : ∀ t ∈ ts.head?, t = .fixed .semicolon ∨ t = .fixed .rightBrace) : form (t :: ts) = form [t] := by
  cases ts with
  | nil => rfl
  | cons t' ts =>
    cases t with
    | fixed f => cases f <;> rfl
    | name n => rcases h t' rfl with rfl | rfl <;> rfl
    | _ => rfl

theorem form_third {t₁ t₂ t : Token} (h : t = .fixed .rightBrace ∨ ∀ a b, t₁ = .name a → t₂ ≠ .name b) :
    form [t₁, t₂, t] = form [t₁, t₂] := by
  cases t₁ with
  | fixed f => cases f <;> rfl
  | name a =>
    cases t₂ with
    | fixed f => cases f <;> rfl
    | name b =>
      obtain rfl := h.resolve_right fun h => h a b rfl rfl
      rfl
    | _ => rfl
  | _ => rfl

theorem simpleStatement_stop {c : Cursor} (h : Stop c.rest) (depth : Nat) : Fails (simpleStatement depth c) := by
  have hform : form c.ahead = .expr := by
    have hhead : c.ahead.head? = c.peek? := by simp [Cursor.ahead_eq, Cursor.peek?_eq, List.head?_take]
    cases hts : c.ahead with
    | nil => rfl
    | cons t ts =>
      rw [hts, List.head?_cons] at hhead
      rcases h.peek? with hc | hc | hc
      · cases hhead.trans hc
      · cases hhead.trans hc
        rfl
      · cases hhead.trans hc
        rfl
  rw [simpleStatement_form, hform]
  exact (expr_stop h depth).bind _

theorem statement_stop {c : Cursor} (h : Stop c.rest) (depth : Nat) : Fails (statement depth c) := by
  rw [statement, h.isAt (by decide)]
  exact simpleStatement_stop h depth

theorem form_eq {whole u : List Lexeme} (hu : Closed u) (hw : ¬ EndsInNames whole) (span : Span)
    {l : Lexeme} {p : List Lexeme} (hp : l :: p <:+ whole) (last : Nat) :
    form (Cursor.ahead ⟨last, l :: (p ++ u)⟩) = form (Cursor.ahead ⟨last, l :: (p ++ semicolon span :: u)⟩) := by
  rcases p with - | ⟨l₂, - | ⟨l₃, p⟩⟩
  · have hright := form_stop l.token (.fixed .semicolon :: (u.take 1).map Lexeme.token) (by simp)
    refine Eq.trans ?_ hright.symm
    apply form_stop l.token ((u.take 2).map Lexeme.token)
    obtain rfl | ⟨b, rest, rfl, hb⟩ := hu.cases
    · simp
    · simp [hb]
  · have hnames : ∀ a b, l.token = .name a → l₂.token ≠ .name b := by
      intro a b ha hb
      obtain ⟨before, rfl⟩ := hp
      exact hw ⟨before.map Lexeme.token, a, b, by simp [ha, hb]⟩
    have hright := form_third (t := .fixed .semicolon) (.inr hnames)
    refine Eq.trans ?_ hright.symm
    obtain rfl | ⟨b, rest, rfl, hb⟩ := hu.cases
    · rfl
    · exact form_third (.inl hb)
  · rfl

section

variable {depth : Nat} {bound : List Lexeme} {c : Cursor} {rest : List Lexeme} {span : Span}

theorem next_lt {t : Token} (h : c.peek? = some t) : c.next.rest.length < c.rest.length := by
  rw [← Cursor.tokens_length, ← Cursor.tokens_length, Cursor.tokens_of_peek? h]
  exact Nat.lt_succ_self _

theorem statement_lt {s : Stmt} {c' : Cursor} (h : statement depth c = .ok (s, c')) :
    c'.rest.length < c.rest.length := by
  obtain ⟨ts, hts, hs⟩ := statement_sound h
  rw [← Cursor.tokens_length, ← Cursor.tokens_length, hts]
  exact hs.length_lt

theorem block_end (h : c.rest = []) (done : List Stmt) : Fails (block depth bound c done) := by
  rw [block.eq_def, Cursor.isAt, Cursor.peek?, h]
  exact ⟨_, rfl⟩

theorem block_brace {b : Lexeme} (h : c.rest = b :: rest) (hb : b.token = .fixed .rightBrace) (done : List Stmt) :
    block depth bound c done = .ok (done.reverse, ⟨b.span.stop, rest⟩) := by
  rw [block.eq_def, Cursor.isAt, Cursor.peek?, h]
  simp [hb, Cursor.next, h]

theorem block_semicolon (h : c.rest = semicolon span :: rest) (l : Lexeme) (done : List Stmt) :
    block depth (l :: bound) c done = block depth bound ⟨span.stop, rest⟩ done := by
  rw [block.eq_def]
  simp [Cursor.isAt, Cursor.peek?, Cursor.next, h, semicolon]

theorem statements_end (h : c.rest = []) (done : List Stmt) : statements depth bound c done = .ok done.reverse := by
  unfold statements
  rw [Cursor.peek?, h]
  rfl

theorem statements_brace {b : Lexeme} (h : c.rest = b :: rest) (hb : b.token = .fixed .rightBrace)
    (done : List Stmt) : Fails (statements depth bound c done) := by
  have hpeek : c.peek? = some (.fixed .rightBrace) := by simp [Cursor.peek?, h, hb]
  have hstop : Stop c.rest := by simp [Stop, h, hb]
  unfold statements
  rw [hpeek]
  cases bound with
  | nil => exact ⟨_, rfl⟩
  | cons l bound =>
    simp only [Cursor.isAt, hpeek]
    exact (statement_stop hstop depth).bind _

theorem statements_semicolon (h : c.rest = semicolon span :: rest) (l : Lexeme) (done : List Stmt) :
    statements depth (l :: bound) c done = statements depth bound ⟨span.stop, rest⟩ done := by
  rw [statements.eq_def]
  simp [Cursor.isAt, Cursor.peek?, Cursor.next, h, semicolon]

end

/-- The cursors are in lockstep, or the semicolon has been taken on the one side, or what stands behind the
brace is parsed on both sides. -/
inductive Abreast (whole u : List Lexeme) (span : Span) : Cursor → Cursor → Prop
  | before {c d : Cursor} (h : Lockstep whole u (semicolon span :: u) c d) : Abreast whole u span c d
  | taken (last last' : Nat) : Abreast whole u span ⟨last, u⟩ ⟨last', u⟩
  | same (c : Cursor) : Abreast whole u span c c

section

variable {whole u : List Lexeme} {span : Span} (hu : Closed u) {c d : Cursor}

theorem abreast_refl {α : Type} (x : Except ParseError (α × Cursor)) : Agree (Both (Abreast whole u span)) x x :=
  agree_refl (fun a => ⟨rfl, .same a.2⟩) x

include hu

theorem Abreast.isAt {f : Fixed} (h : Abreast whole u span c d) (hf : f ∉ [Fixed.semicolon, .rightBrace]) :
    c.isAt f = d.isAt f := by
  cases h with
  | before h => exact h.isAt hu.stop (stop_semicolon span u) hf
  | taken last last' => rfl
  | same c => rfl

theorem Abreast.next {f : Fixed} (h : Abreast whole u span c d) (hf : f ∉ [Fixed.semicolon, .rightBrace])
    (hc : c.isAt f = true) : Abreast whole u span c.next d.next := by
  cases h with
  | before h => exact .before (h.next hu.stop hf hc)
  | taken last last' => cases hc.symm.trans (Stop.isAt hu.stop hf)
  | same c => exact .same c.next

omit hu in
theorem Abreast.cases (h : Abreast whole u span c d) :
    (c.rest = u ∧ (d.rest = u ∨ d.rest = semicolon span :: u)) ∨ (c.rest = [] ∧ d.rest = []) ∨
      ∃ t, c.peek? = some t ∧ d.peek? = some t ∧ Abreast whole u span c.next d.next := by
  cases h with
  | taken last last' => exact .inl ⟨rfl, .inl rfl⟩
  | before h =>
    cases h with
    | stop last => exact .inl ⟨rfl, .inr rfl⟩
    | @step last l p hp =>
      have hnext := lockstep_next hp u (semicolon span :: u)
      exact .inr (.inr ⟨l.token, rfl, rfl, .before hnext⟩)
  | same c =>
    cases hc : c.peek? with
    | none =>
      have hnil : c.rest = [] := by simpa [Cursor.peek?] using hc
      exact .inr (.inl ⟨hnil, hnil⟩)
    | some t => exact .inr (.inr ⟨t, rfl, rfl, .same c.next⟩)

theorem block_closed (hc : c.rest = u) (hd : d.rest = u) {depth : Nat} {bound bound' : List Lexeme}
    (done : List Stmt) :
    Agree (Both (Abreast whole u span)) (block depth bound c done) (block depth bound' d done) := by
  obtain rfl | ⟨b, rest, rfl, hb⟩ := hu.cases
  · exact (block_end hc done).agree (block_end hd done)
  · rw [block_brace hc hb, block_brace hd hb]
    exact ⟨rfl, .same _⟩

theorem statements_closed (hc : c.rest = u) (hd : d.rest = u) {depth : Nat} {bound bound' : List Lexeme}
    (done : List Stmt) : Agree Eq (statements depth bound c done) (statements depth bound' d done) := by
  obtain rfl | ⟨b, rest, rfl, hb⟩ := hu.cases
  · rw [statements_end hc, statements_end hd]
    rfl
  · exact (statements_brace hc hb done).agree (statements_brace hd hb done)

theorem endOfStatement_abreast (h : Lockstep whole u (semicolon span :: u) c d) :
    Agree (Abreast whole u span) (endOfStatement c) (endOfStatement d) := by
  cases h with
  | stop last =>
    have hd : endOfStatement ⟨last, semicolon span :: u⟩ = .ok ⟨span.stop, u⟩ := rfl
    have hc : endOfStatement ⟨last, u⟩ = .ok ⟨last, u⟩ := by
      obtain rfl | ⟨b, rest, rfl, hb⟩ := hu.cases
      · rfl
      · simp [endOfStatement, Cursor.isAt, Cursor.peek?, hb]
    rw [hc, hd]
    exact .taken last span.stop
  | @step last l p hp =>
    have hnext := lockstep_next hp u (semicolon span :: u)
    have hpeek : Cursor.peek? ⟨last, l :: (p ++ semicolon span :: u)⟩ = Cursor.peek? ⟨last, l :: (p ++ u)⟩ := rfl
    have hat := Cursor.isAt_congr hpeek
    unfold endOfStatement Cursor.expect
    rw [hat, hat, hpeek]
    split
    · exact .before hnext
    · split
      · exact .before (.step last hp)
      · trivial

theorem initialValue_lockstep (h : Lockstep whole u (semicolon span :: u) c d) (depth : Nat) :
    Agree (Both (Lockstep whole u (semicolon span :: u))) (initialValue depth c) (initialValue depth d) := by
  have hv := stop_semicolon span u
  unfold initialValue
  rw [← h.isAt hu.stop hv (by decide)]
  split
  · rename_i hq
    refine (expr_lockstep hu.stop hv (h.next hu.stop (by decide) hq)).map ?_
    rintro ⟨e, c₁⟩ ⟨_, d₁⟩ ⟨rfl, h₁⟩
    exact ⟨rfl, h₁⟩
  · exact ⟨rfl, h⟩

theorem declaration_abreast (h : Lockstep whole u (semicolon span :: u) c d) (depth start : Nat)
    (type : Option String) (place : Place) :
    Agree (Both (Abreast whole u span)) (declaration depth start type place c)
      (declaration depth start type place d) := by
  have hv := stop_semicolon span u
  unfold declaration
  refine (h.name hu.stop hv place).bind ?_
  rintro ⟨name, c₁⟩ ⟨_, d₁⟩ ⟨rfl, h₁⟩
  refine (initialValue_lockstep hu h₁ depth).bind ?_
  rintro ⟨value, c₂⟩ ⟨_, d₂⟩ ⟨rfl, h₂⟩
  refine (endOfStatement_abreast hu h₂).bind ?_
  intro c₃ d₃ h₃
  dsimp only at h₂ ⊢
  rw [h₂.since]
  exact ⟨rfl, h₃⟩

theorem assignment_abreast (h : Lockstep whole u (semicolon span :: u) c d) (depth start : Nat)
    (target : String) (op : AssignOp) :
    Agree (Both (Abreast whole u span)) (assignment depth start target op c)
      (assignment depth start target op d) := by
  unfold assignment
  refine (expr_lockstep hu.stop (stop_semicolon span u) h).bind ?_
  rintro ⟨value, c₁⟩ ⟨_, d₁⟩ ⟨rfl, h₁⟩
  refine (endOfStatement_abreast hu h₁).bind ?_
  intro c₂ d₂ h₂
  dsimp only at h₁ ⊢
  rw [h₁.since]
  exact ⟨rfl, h₂⟩

theorem returned_abreast (h : Lockstep whole u (semicolon span :: u) c d) (depth : Nat) :
    Agree (Both (Abreast whole u span)) (returned depth c) (returned depth d) := by
  have hclosed : (c.peek?.isNone || c.isAt .semicolon || c.isAt .rightBrace) =
      (d.peek?.isNone || d.isAt .semicolon || d.isAt .rightBrace) := by
    cases h with
    | stop last =>
      obtain rfl | ⟨b, rest, rfl, hb⟩ := hu.cases
      · rfl
      · simp [Cursor.isAt, Cursor.peek?, hb, semicolon]
    | step last hp => rfl
  unfold returned
  rw [← hclosed]
  split
  · refine (endOfStatement_abreast hu h).bind ?_
    intro c₁ d₁ h₁
    exact ⟨rfl, h₁⟩
  · refine (expr_lockstep hu.stop (stop_semicolon span u) h).bind ?_
    rintro ⟨e, c₁⟩ ⟨_, d₁⟩ ⟨rfl, h₁⟩
    refine (endOfStatement_abreast hu h₁).bind ?_
    intro c₂ d₂ h₂
    exact ⟨rfl, h₂⟩

theorem simpleStatement_abreast (hw : ¬ EndsInNames whole) (h : Lockstep whole u (semicolon span :: u) c d)
    (depth : Nat) :
    Agree (Both (Abreast whole u span)) (simpleStatement depth c) (simpleStatement depth d) := by
  have hv := stop_semicolon span u
  cases h with
  | stop last => exact (simpleStatement_stop hu.stop depth).agree (simpleStatement_stop hv depth)
  | @step last l p hp =>
    have hnext := lockstep_next hp u (semicolon span :: u)
    rw [simpleStatement_form, simpleStatement_form, ← form_eq hu hw span hp last]
    cases hform : form (Cursor.ahead ⟨last, l :: (p ++ u)⟩) with
    | declare => exact declaration_abreast hu hnext depth _ none .afterVar
    | ret => exact returned_abreast hu hnext depth
    | assign target op =>
      obtain ⟨f, rest, ha, hf⟩ := form_assign hform
      obtain ⟨ts, hts⟩ := Cursor.ahead_next ha
      have hat := Cursor.isAt_fixed (Cursor.tokens_of_ahead hts) f
      have hother : ∀ g ∈ [Fixed.equal, .plusEqual, .minusEqual], g ∉ [Fixed.semicolon, .rightBrace] := by decide
      have hvalue := hnext.next hu.stop (hother f hf) (hat.trans (beq_self_eq_true f))
      exact assignment_abreast hu hvalue depth _ target op
    | typed type => exact declaration_abreast hu hnext depth _ (some type) .asName
    | expr =>
      refine (expr_lockstep hu.stop hv (.step last hp)).bind ?_
      rintro ⟨e, c₁⟩ ⟨_, d₁⟩ ⟨rfl, h₁⟩
      refine (endOfStatement_abreast hu h₁).bind ?_
      intro c₂ d₂ h₂
      exact ⟨rfl, h₂⟩

mutual

theorem statement_abreast {depth : Nat} {c d : Cursor} (hw : ¬ EndsInNames whole) (h : Abreast whole u span c d) :
    Agree (Both (Abreast whole u span)) (statement depth c) (statement depth d) := by
  have hv := stop_semicolon span u
  cases h with
  | taken last last' => exact (statement_stop hu.stop depth).agree (statement_stop hu.stop depth)
  | same c => exact abreast_refl _
  | before h =>
    rw [statement, statement, ← h.isAt hu.stop hv (by decide)]
    split
    · rename_i hif
      refine ((h.next hu.stop (by decide) hif).expect hu.stop hv (by decide)).bind ?_
      intro c₁ d₁ h₁
      refine (expr_lockstep hu.stop hv h₁).bind ?_
      rintro ⟨condition, c₂⟩ ⟨_, d₂⟩ ⟨rfl, h₂⟩
      refine (h₂.expect hu.stop hv (by decide)).bind ?_
      intro c₃ d₃ h₃
      refine (body_abreast hw (.before h₃)).bind ?_
      rintro ⟨yes, c₄⟩ ⟨_, d₄⟩ ⟨rfl, h₄⟩
      dsimp only at h₄ ⊢
      rw [← h₄.isAt hu (by decide)]
      split
      · rename_i helse
        refine (body_abreast hw (h₄.next hu (by decide) helse)).bind ?_
        rintro ⟨no, c₅⟩ ⟨_, d₅⟩ ⟨rfl, h₅⟩
        exact ⟨rfl, h₅⟩
      · exact ⟨rfl, h₄⟩
    · exact simpleStatement_abreast hu hw h depth
termination_by (depth, 2, 0)

theorem body_abreast {depth : Nat} {c d : Cursor} (hw : ¬ EndsInNames whole) (h : Abreast whole u span c d) :
    Agree (Both (Abreast whole u span)) (body depth c) (body depth d) := by
  cases depth with
  | zero =>
    rw [body, body]
    trivial
  | succ depth =>
    rw [body, body, ← h.isAt hu (by decide)]
    split
    · rename_i hbrace
      exact block_abreast hw (h.next hu (by decide) hbrace) c.next_le d.next_le []
    · refine (statement_abreast hw h).map ?_
      rintro ⟨s, c₁⟩ ⟨_, d₁⟩ ⟨rfl, h₁⟩
      exact ⟨rfl, h₁⟩
termination_by (depth, 1, 0)

theorem block_abreast {depth : Nat} {bound bound' : List Lexeme} {c d : Cursor} (hw : ¬ EndsInNames whole)
    (h : Abreast whole u span c d) (hb : c.rest.length ≤ bound.length) (hb' : d.rest.length ≤ bound'.length)
    (done : List Stmt) :
    Agree (Both (Abreast whole u span)) (block depth bound c done) (block depth bound' d done) := by
  rcases h.cases with ⟨hc, hd | hd⟩ | ⟨hc, hd⟩ | ⟨t, hc, hd, hnext⟩
  · exact block_closed hu hc hd done
  · -- The semicolon closed no statement, so it is a stray one.
    cases bound' with
    | nil => simp [hd] at hb'
    | cons l bound' =>
      rw [block_semicolon hd]
      exact block_closed hu hc rfl done
  · exact (block_end hc done).agree (block_end hd done)
  · have hcn := next_lt hc
    have hdn := next_lt hd
    have hat := Cursor.isAt_congr (hd.trans hc.symm)
    obtain ⟨l, bound, rfl⟩ : ∃ l rest, bound = l :: rest := List.exists_cons_of_length_pos (by omega)
    obtain ⟨l', bound', rfl⟩ : ∃ l rest, bound' = l :: rest := List.exists_cons_of_length_pos (by omega)
    rw [List.length_cons] at hb hb'
    rw [block.eq_def, block.eq_def depth (l' :: bound') d done, hat, hc, hd]
    split
    · exact ⟨rfl, hnext⟩
    · simp only [hat]
      split
      · exact block_abreast hw hnext (by omega) (by omega) done
      · refine (statement_abreast hw h).bind_ok ?_
        rintro ⟨s, c₁⟩ ⟨_, d₁⟩ hs hs' ⟨rfl, h₁⟩
        have hc₁ := statement_lt hs
        have hd₁ := statement_lt hs'
        dsimp only at h₁ ⊢
        exact block_abreast hw h₁ (by omega) (by omega) (s :: done)
termination_by (depth, 3, bound.length)

end

theorem statements_abreast {depth : Nat} {bound bound' : List Lexeme} {c d : Cursor} (hw : ¬ EndsInNames whole)
    (h : Abreast whole u span c d) (hb : c.rest.length ≤ bound.length) (hb' : d.rest.length ≤ bound'.length)
    (done : List Stmt) : Agree Eq (statements depth bound c done) (statements depth bound' d done) := by
  rcases h.cases with ⟨hc, hd | hd⟩ | ⟨hc, hd⟩ | ⟨t, hc, hd, hnext⟩
  · exact statements_closed hu hc hd done
  · cases bound' with
    | nil => simp [hd] at hb'
    | cons l bound' =>
      rw [statements_semicolon hd]
      exact statements_closed hu hc rfl done
  · rw [statements_end hc, statements_end hd]
    rfl
  · have hcn := next_lt hc
    have hdn := next_lt hd
    have hat := Cursor.isAt_congr (hd.trans hc.symm)
    obtain ⟨l, bound, rfl⟩ : ∃ l rest, bound = l :: rest := List.exists_cons_of_length_pos (by omega)
    obtain ⟨l', bound', rfl⟩ : ∃ l rest, bound' = l :: rest := List.exists_cons_of_length_pos (by omega)
    rw [List.length_cons] at hb hb'
    unfold statements
    rw [hc, hd]
    simp only [hat]
    split
    · exact statements_abreast hw hnext (by omega) (by omega) done
    · refine (statement_abreast hu hw h).bind_ok ?_
      rintro ⟨s, c₁⟩ ⟨_, d₁⟩ hs hs' ⟨rfl, h₁⟩
      have hc₁ := statement_lt hs
      have hd₁ := statement_lt hs'
      dsimp only at h₁ ⊢
      exact statements_abreast hw h₁ (by omega) (by omega) (s :: done)
termination_by bound.length

end

theorem parseScript_abreast {ts u : List Lexeme} (hu : Closed u) (hts : ¬ EndsInNames ts) (depth : Nat)
    (span : Span) :
    Agree Eq (parseScript depth (ts ++ u)) (parseScript depth (ts ++ semicolon span :: u)) :=
  statements_abreast hu hts (.before (lockstep_append (List.suffix_refl ts) u _ 0)) le_rfl le_rfl []

theorem not_endsInNames (ts : List Lexeme) {u : List Lexeme} (hu : Closed u) {depth : Nat} {ss : List Stmt}
    (h : parseScript depth (ts ++ u) = .ok ss) : ¬ EndsInNames ts := by
  rintro ⟨before, a, b, hts⟩
  have hpair := (parseScript_sound h).paired before a b (u.map Lexeme.token) (by simp [hts])
  obtain rfl | ⟨l, rest, rfl, hl⟩ := hu.cases
  · rcases hpair with h | h <;> cases h
  · rcases hpair with h | h <;> cases hl.symm.trans (Option.some.inj h)

theorem parseScript_semicolon (ts : List Lexeme) {u : List Lexeme} (hu : Closed u) (depth : Nat) (span : Span)
    (ss : List Stmt) :
    parseScript depth (ts ++ u) = .ok ss ↔
      parseScript depth (ts ++ semicolon span :: u) = .ok ss ∧ ¬ EndsInNames ts := by
  constructor
  · intro h
    have hts := not_endsInNames ts hu h
    exact ⟨((parseScript_abreast hu hts depth span).ok_iff ss).mp h, hts⟩
  · rintro ⟨h, hts⟩
    exact ((parseScript_abreast hu hts depth span).ok_iff ss).mpr h

theorem semicolon_optional (depth : Nat) (ts rest : List Lexeme) (span brace : Span) (ss : List Stmt) :
    (parseScript depth ts = .ok ss ↔
      parseScript depth (ts ++ [semicolon span]) = .ok ss ∧ ¬ EndsInNames ts) ∧
    (parseScript depth (ts ++ ⟨.fixed .rightBrace, brace⟩ :: rest) = .ok ss ↔
      parseScript depth (ts ++ semicolon span :: ⟨.fixed .rightBrace, brace⟩ :: rest) = .ok ss ∧
        ¬ EndsInNames ts) := by
  have hend : Closed [] := by simp [Closed]
  have hbrace : Closed (⟨.fixed .rightBrace, brace⟩ :: rest) := by simp [Closed]
  constructor
  · simpa using parseScript_semicolon ts hend depth span ss
  · exact parseScript_semicolon ts hbrace depth span ss

theorem typed_declaration_wants_semicolon :
    (∀ ss, parseScript 256 [⟨.name "Integer", ⟨0, 7⟩⟩, ⟨.name "x", ⟨8, 9⟩⟩] ≠ .ok ss) ∧
    parseScript 256 ([⟨.name "Integer", ⟨0, 7⟩⟩, ⟨.name "x", ⟨8, 9⟩⟩] ++ [semicolon ⟨9, 10⟩]) =
      .ok [.declare "x" (some "Integer") none ⟨0, 9⟩] := by
  constructor
  · intro ss h
    have hend : Closed [] := by simp [Closed]
    have hnames := not_endsInNames [⟨.name "Integer", ⟨0, 7⟩⟩, ⟨.name "x", ⟨8, 9⟩⟩] hend h
    exact hnames ⟨[], "Integer", "x", rfl⟩
  · simp [parseScript, statements, statement, simpleStatement, declaration, initialValue, endOfStatement, semicolon,
      Cursor.atStart, Cursor.isAt, Cursor.peek?, Cursor.ahead, Cursor.name, Cursor.next, Cursor.here, Cursor.since,
      ok_bind, statements_end]

end FactFold.Script
