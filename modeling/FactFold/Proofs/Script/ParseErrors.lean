import FactFold.Proofs.Script.Grammar.Soundness
import FactFold.Proofs.Script.Places

namespace FactFold.Script

/-! ## Edges of lexemes -/

def Edge (ls : List Lexeme) (n : Nat) : Prop :=
  n = 0 ∨ ∃ l ∈ ls, n = l.span.start ∨ n = l.span.stop

structure Span.Stands (ls : List Lexeme) (s : Span) : Prop where
  start : Edge ls s.start
  stop : Edge ls s.stop
  forward : s.start ≤ s.stop

structure Cursor.Within (ls : List Lexeme) (c : Cursor) : Prop where
  rest : c.rest <:+ ls
  last : Edge ls c.last

def Points {α : Type} (ls : List Lexeme) (P : α → Prop) : Except ParseError α → Prop
  | .ok a => P a
  | .error e => e.span.Stands ls

abbrev ExprPoints (ls : List Lexeme) : Except ParseError (Expr × Cursor) → Prop :=
  Points ls fun (e, c) => e.span.Stands ls ∧ c.Within ls

abbrev PlacePoints {α : Type} (ls : List Lexeme) : Except ParseError (α × Cursor) → Prop :=
  Points ls fun (_, c) => c.Within ls

section

variable {α β : Type} {ls : List Lexeme} {c : Cursor} {x : Except ParseError α} {P : α → Prop} {start : Nat}

theorem edge_start {l : Lexeme} (hl : l ∈ ls) : Edge ls l.span.start :=
  .inr ⟨l, hl, .inl rfl⟩

theorem edge_stop {l : Lexeme} (hl : l ∈ ls) : Edge ls l.span.stop :=
  .inr ⟨l, hl, .inr rfl⟩

theorem Points.bind {R : β → Prop} {f : α → Except ParseError β} (h : Points ls P x)
    (hf : ∀ a, P a → Points ls R (f a)) : Points ls R (x >>= f) := by
  cases x with
  | ok a => exact hf a h
  | error e => exact h

theorem Points.map {R : β → Prop} {f : α → β} (h : Points ls P x) (hf : ∀ a, P a → R (f a)) :
    Points ls R (x.map f) := by
  cases x with
  | ok a => exact hf a h
  | error e => exact h

namespace Cursor.Within

theorem next (h : c.Within ls) : c.next.Within ls := by
  obtain ⟨last, _ | ⟨l, rest⟩⟩ := c
  · exact h
  · exact ⟨(List.suffix_cons l rest).trans h.rest, edge_stop (h.rest.subset List.mem_cons_self)⟩

theorem here (h : c.Within ls) (hls : Ascending ls) : c.here.Stands ls := by
  obtain ⟨last, _ | ⟨l, rest⟩⟩ := c
  · exact ⟨h.last, h.last, Nat.le_refl _⟩
  · have hl : l ∈ ls := h.rest.subset List.mem_cons_self
    exact ⟨edge_start hl, edge_stop hl, hls.forward l hl⟩

theorem since (h : c.Within ls) (hstart : Edge ls start) : (c.since start).Stands ls := by
  refine ⟨hstart, ?_, Nat.le_max_left _ _⟩
  rw [Cursor.since]
  dsimp only
  rcases max_choice start c.last with hmax | hmax <;> rw [hmax]
  · exact hstart
  · exact h.last

theorem points_fail (h : c.Within ls) (hls : Ascending ls) (cause : ParseCause) : Points ls P (c.fail cause) :=
  h.here hls

theorem points_expect (h : c.Within ls) (hls : Ascending ls) (f : Fixed) :
    Points ls (Cursor.Within ls) (c.expect f) := by
  unfold expect
  split
  · exact h.next
  · exact h.points_fail hls _

theorem points_name (h : c.Within ls) (hls : Ascending ls) (place : Place) : PlacePoints ls (c.name place) := by
  unfold name
  split
  · exact h.next
  · exact h.points_fail hls _

end Cursor.Within

end

/-! ## Expressions -/

theorem arguments_points {ls : List Lexeme} (hls : Ascending ls) {argument : Cursor → Except ParseError (Expr × Cursor)}
    (ha : ∀ c, c.Within ls → ExprPoints ls (argument c)) (bound : List Lexeme) {c : Cursor} (hc : c.Within ls)
    (done : List Expr) : PlacePoints ls (arguments argument bound c done) := by
  induction bound generalizing c done with
  | nil =>
    unfold arguments
    split
    · exact hc.next
    · refine (ha c hc).bind ?_
      rintro ⟨e, c₁⟩ ⟨-, hc₁⟩
      dsimp only
      split
      · exact hc₁.next
      · exact (hc₁.points_expect hls _).bind fun c₂ hc₂ => hc₂.points_fail hls _
  | cons l bound ih =>
    unfold arguments
    split
    · exact hc.next
    · refine (ha c hc).bind ?_
      rintro ⟨e, c₁⟩ ⟨-, hc₁⟩
      dsimp only
      split
      · exact hc₁.next
      · exact (hc₁.points_expect hls _).bind fun c₂ hc₂ => ih hc₂ (e :: done)

mutual

theorem expr_points {ls : List Lexeme} (hls : Ascending ls) (depth : Nat) {c : Cursor} (hc : c.Within ls) :
    ExprPoints ls (expr depth c) := by
  cases depth with
  | zero =>
    rw [expr]
    exact hc.points_fail hls _
  | succ depth =>
    rw [expr]
    refine (operators_points hls depth 0 hc).bind ?_
    rintro ⟨condition, c₁⟩ ⟨hcondition, hc₁⟩
    dsimp only
    split
    · refine (expr_points hls depth hc₁.next).bind ?_
      rintro ⟨yes, c₂⟩ ⟨-, hc₂⟩
      refine (hc₂.points_expect hls _).bind fun c₃ hc₃ => (expr_points hls depth hc₃).bind ?_
      rintro ⟨no, c₄⟩ ⟨-, hc₄⟩
      exact ⟨hc₄.since (hc.here hls).start, hc₄⟩
    · exact ⟨hcondition, hc₁⟩
termination_by (depth, 0)

theorem operators_points {ls : List Lexeme} (hls : Ascending ls) (depth level : Nat) {c : Cursor}
    (hc : c.Within ls) : ExprPoints ls (operators depth level c) := by
  rw [operators]
  refine (operand_points hls depth hc).bind ?_
  rintro ⟨left, c₁⟩ ⟨hleft, hc₁⟩
  exact joined_points hls depth level (hc.here hls).start hleft hc₁
termination_by (depth, 4)

theorem joined_points {ls : List Lexeme} (hls : Ascending ls) (depth level : Nat) {start : Nat} {left : Expr}
    {c : Cursor} (hstart : Edge ls start) (hleft : left.span.Stands ls) (hc : c.Within ls) :
    ExprPoints ls (joined depth level start left c) := by
  rw [joined.eq_def]
  split
  · exact ⟨hleft, hc⟩
  · split
    · exact ⟨hleft, hc⟩
    · cases depth with
      | zero => exact hc.points_fail hls _
      | succ depth =>
        refine (operators_points hls depth _ hc.next).bind ?_
        rintro ⟨right, c₁⟩ ⟨-, hc₁⟩
        exact joined_points hls depth level hstart (hc₁.since hstart) hc₁
termination_by (depth, 0)

theorem operand_points {ls : List Lexeme} (hls : Ascending ls) (depth : Nat) {c : Cursor} (hc : c.Within ls) :
    ExprPoints ls (operand depth c) := by
  rw [operand.eq_def]
  split
  · exact primary_points hls depth hc
  · cases depth with
    | zero => exact hc.points_fail hls _
    | succ depth =>
      refine (operand_points hls depth hc.next).bind ?_
      rintro ⟨e, c₁⟩ ⟨-, hc₁⟩
      refine ⟨?_, hc₁⟩
      rw [Expr.span_signed]
      exact hc₁.since (hc.here hls).start
termination_by (depth, 3)

theorem primary_points {ls : List Lexeme} (hls : Ascending ls) (depth : Nat) {c : Cursor} (hc : c.Within ls) :
    ExprPoints ls (primary depth c) := by
  rw [primary]
  refine (atom_points hls depth hc).bind ?_
  rintro ⟨e, c₁⟩ ⟨he, hc₁⟩
  exact chain_points hls depth (hc.here hls).start he hc₁
termination_by (depth, 2)

theorem chain_points {ls : List Lexeme} (hls : Ascending ls) (depth : Nat) {start : Nat} {e : Expr} {c : Cursor}
    (hstart : Edge ls start) (he : e.span.Stands ls) (hc : c.Within ls) :
    ExprPoints ls (chain depth start e c) := by
  rw [chain.eq_def]
  split
  · cases depth with
    | zero => exact hc.points_fail hls _
    | succ depth =>
      refine (hc.next.points_name hls _).bind ?_
      rintro ⟨name, c₁⟩ hc₁
      exact chain_points hls depth hstart (hc₁.since hstart) hc₁
  · split
    · split
      -- what is no path is refused at the place of its own
      · exact he
      · exact hc.points_fail hls _
      · rename_i function depth _
        refine (arguments_points hls (fun _ => expr_points hls depth) _ hc.next []).bind ?_
        rintro ⟨args, c₁⟩ hc₁
        exact chain_points hls depth hstart (hc₁.since hstart) hc₁
    · exact ⟨he, hc⟩
termination_by (depth, 0)

theorem atom_points {ls : List Lexeme} (hls : Ascending ls) (depth : Nat) {c : Cursor} (hc : c.Within ls) :
    ExprPoints ls (atom depth c) := by
  have hstart := (hc.here hls).start
  rw [atom]
  split
  · exact ⟨hc.next.since hstart, hc.next⟩
  · refine (expr_points hls depth hc.next).bind ?_
    rintro ⟨e, c₁⟩ ⟨-, hc₁⟩
    refine (hc₁.points_expect hls _).bind fun c₂ hc₂ => ⟨?_, hc₂⟩
    rw [Expr.span_withSpan]
    exact hc₂.since hstart
  · split
    · exact ⟨hc.next.since hstart, hc.next⟩
    · exact hc.points_fail hls _
termination_by (depth, 1)

end

/-! ## Names -/

mutual

theorem Grammar.Expression.mem_name {ts : List Token} {e : Expr} {n : String} {s : Span} (h : Expression ts e)
    (he : e = .name n s) : .name n ∈ ts := by
  match h with
  | .plain h => exact h.mem_name he
  | .conditional .. => cases he
termination_by structural h

theorem Grammar.Level.mem_name {k : Nat} {ts : List Token} {e : Expr} {n : String} {s : Span} (h : Level k ts e)
    (he : e = .name n s) : .name n ∈ ts := by
  match h with
  | .operand h => exact h.mem_name he
  | .higher h => exact h.mem_name he
  | .join .. => cases he
termination_by structural h

theorem Grammar.Operand.mem_name {ts : List Token} {e : Expr} {n : String} {s : Span} (h : Operand ts e)
    (he : e = .name n s) : .name n ∈ ts := by
  match h with
  | .plain h => exact h.mem_name he
  | .negInt _ | .negFloat _ | .neg .. | .not _ => cases he
termination_by structural h

theorem Grammar.Postfixed.mem_name {ts : List Token} {e : Expr} {n : String} {s : Span} (h : Postfixed ts e)
    (he : e = .name n s) : .name n ∈ ts := by
  match h with
  | .atom h => exact h.mem_name he
  | .field .. | .call .. => cases he
termination_by structural h

theorem Grammar.Atom.mem_name {ts : List Token} {e : Expr} {n : String} {s : Span} (h : Atom ts e)
    (he : e = .name n s) : .name n ∈ ts := by
  match h with
  | .literal _ => cases he
  | .name _ =>
    cases he
    exact List.mem_cons_self
  | .parens h => exact List.mem_cons_of_mem _ (List.mem_append_left _ (h.mem_name he))
termination_by structural h

end

def Span.Holds (ls : List Lexeme) (s : Span) (name : String) : Prop :=
  ∃ l ∈ ls, l.token = .name name ∧ s.start ≤ l.span.start ∧ l.span.stop ≤ s.stop

section

variable {p ls : List Lexeme} {e : Expr}

theorem Covers.stands (h : Covers p e) (hls : Ascending ls) (hp : p <:+: ls) : e.span.Stands ls := by
  have hascending := hls.of_infix hp
  obtain ⟨first, hfirst, hstart⟩ := exists_firstByte h.nonempty
  obtain ⟨last, hlast, hstop⟩ := exists_lastByte h.nonempty
  rw [h.span_eq hascending, ← hstart, ← hstop]
  refine ⟨edge_start (hp.subset hfirst), edge_stop (hp.subset hlast), ?_⟩
  dsimp only
  rw [hstart, hstop]
  exact hascending.firstByte_le_lastByte h.nonempty

theorem Covers.holds {n : String} {s : Span} (h : Covers p (.name n s)) (hls : Ascending ls) (hp : p <:+: ls) :
    s.Holds ls n := by
  have hascending := hls.of_infix hp
  have hspan : s = ⟨firstByte p, lastByte p⟩ := h.span_eq hascending
  cases h with
  | node nonempty alone span parts =>
    obtain ⟨depth, halone⟩ := alone
    obtain ⟨⟨e, c⟩, hexpr, hrest⟩ := bind_eq_ok.1 halone
    dsimp only at hrest
    split at hrest
    · cases hrest
      obtain ⟨ts, hts, hder⟩ := expr_sound hexpr
      have hmem : Token.name n ∈ p.map Lexeme.token := by
        have htokens : p.map Lexeme.token = ts ++ c.tokens := hts
        rw [htokens]
        exact List.mem_append_left _ (hder.mem_name rfl)
      obtain ⟨l, hl, hname⟩ := List.mem_map.1 hmem
      rw [hspan]
      exact ⟨l, hp.subset hl, hname, hascending.firstByte_le hl, hascending.le_lastByte hl⟩
    · cases hrest

end

/-! ## Statements -/

def Expr.Among (ls : List Lexeme) (e : Expr) : Prop :=
  ∃ p, p <:+: ls ∧ Covers p e

inductive Stmt.Stands (ls : List Lexeme) : Stmt → Prop
  | expr {e : Expr} (he : e.Among ls) : Stands ls (.expr e)
  | assign {target : String} {op : AssignOp} {value : Expr} {span : Span} (hspan : span.Stands ls)
      (htarget : span.Holds ls target) (hvalue : value.Among ls) : Stands ls (.assign target op value span)
  | declare {name : String} {type : Option String} {value : Option Expr} {span : Span} (hspan : span.Stands ls)
      (htype : ∀ t ∈ type, span.Holds ls t) (hvalue : ∀ e ∈ value, e.Among ls) :
      Stands ls (.declare name type value span)
  | branch {condition : Expr} {yes : List Stmt} {no : Option (List Stmt)} (hcondition : condition.Among ls)
      (hyes : ∀ s ∈ yes, Stands ls s) (hno : ∀ ss ∈ no, ∀ s ∈ ss, Stands ls s) :
      Stands ls (.branch condition yes no)
  | ret {value : Option Expr} (hvalue : ∀ e ∈ value, e.Among ls) : Stands ls (.ret value)

abbrev StmtPoints (ls : List Lexeme) : Except ParseError (Stmt × Cursor) → Prop :=
  Points ls fun (s, c) => s.Stands ls ∧ c.Within ls

abbrev BlockPoints (ls : List Lexeme) : Except ParseError (List Stmt × Cursor) → Prop :=
  Points ls fun (ss, c) => (∀ s ∈ ss, s.Stands ls) ∧ c.Within ls

def Named (ls : List Lexeme) (start : Nat) (c : Cursor) (name : String) : Prop :=
  ∃ l ∈ ls, l.token = .name name ∧ start ≤ l.span.start ∧ ∀ m ∈ c.rest, l.span.stop ≤ m.span.start

def Behind (c c' : Cursor) : Prop :=
  ∃ m ∈ c.rest, c'.last = m.span.stop

section

variable {ls : List Lexeme} {c c' : Cursor} {start : Nat} {name : String}

theorem Cursor.rest_next (c : Cursor) : c.next.rest <:+ c.rest := by
  obtain ⟨last, _ | ⟨l, rest⟩⟩ := c
  · exact List.suffix_rfl
  · exact List.suffix_cons l rest

theorem Named.next (h : Named ls start c name) : Named ls start c.next name := by
  obtain ⟨l, hl, hname, hstart, hfront⟩ := h
  exact ⟨l, hl, hname, hstart, fun m hm => hfront m (c.rest_next.subset hm)⟩

variable (hls : Ascending ls) (depth : Nat)

include hls

theorem Named.holds (h : Named ls start c name) (hc : c.Within ls) (hbehind : Behind c c') :
    (c'.since start).Holds ls name := by
  obtain ⟨l, hl, hname, hstart, hfront⟩ := h
  obtain ⟨m, hm, hlast⟩ := hbehind
  have hle := hfront m hm
  have hforward := hls.forward m (hc.rest.subset hm)
  refine ⟨l, hl, hname, hstart, ?_⟩
  rw [Cursor.since, hlast]
  dsimp only
  omega

theorem named_of_ahead {ts : List Token} (hc : c.Within ls) (h : c.ahead = .name name :: ts) :
    Named ls c.here.start c.next name := by
  have hpeek : c.peek? = some (.name name) := by
    rw [Cursor.peek?_eq, Cursor.tokens_of_ahead h]
    rfl
  obtain ⟨l, hrest, hname, -, hstart⟩ := Cursor.of_peek? hpeek
  have hordered := (hls.of_infix hc.rest.isInfix).ordered
  rw [hrest] at hordered
  exact ⟨l, hc.rest.subset (hrest ▸ List.mem_cons_self), hname, hstart.le, (List.pairwise_cons.1 hordered).1⟩

theorem expr_among (hc : c.Within ls) :
    Points ls (fun (e, c') => e.Among ls ∧ Behind c c' ∧ c'.Within ls) (expr depth c) := by
  have hpoints := expr_points hls depth hc
  cases h : expr depth c with
  | error e =>
    rw [h] at hpoints
    exact hpoints
  | ok result =>
    obtain ⟨e, c₁⟩ := result
    rw [h] at hpoints
    obtain ⟨p, htakes, hcovers⟩ := expr_takes h
    have hp : p <:+: c.rest := htakes.rest ▸ (List.prefix_append p c₁.rest).isInfix
    obtain ⟨m, hm, hstop⟩ := exists_lastByte htakes.nonempty
    refine ⟨⟨p, hp.trans hc.rest.isInfix, hcovers⟩, ⟨m, hp.subset hm, ?_⟩, hpoints.2⟩
    rw [htakes.last, hstop]

theorem endOfStatement_points (hc : c.Within ls) : Points ls (Cursor.Within ls) (endOfStatement c) := by
  unfold endOfStatement
  split
  · exact hc.next
  · split
    · exact hc
    · exact hc.points_expect hls _

theorem initialValue_points (hc : c.Within ls) :
    Points ls (fun (value, c') => (∀ e ∈ value, e.Among ls) ∧ (c' = c ∨ Behind c c') ∧ c'.Within ls)
      (initialValue depth c) := by
  unfold initialValue
  split
  · refine (expr_among hls depth hc.next).map ?_
    rintro ⟨e, c₁⟩ ⟨he, ⟨m, hm, hlast⟩, hc₁⟩
    exact ⟨by simpa using he, .inr ⟨m, c.rest_next.subset hm, hlast⟩, hc₁⟩
  · exact ⟨by simp, .inl rfl, hc⟩

theorem name_behind (hc : c.Within ls) (place : Place) :
    Points ls (fun (_, c') => Behind c c' ∧ c'.rest <:+ c.rest ∧ c'.Within ls) (c.name place) := by
  have hpoints := hc.points_name hls place
  cases h : c.name place with
  | error e =>
    rw [h] at hpoints
    exact hpoints
  | ok result =>
    obtain ⟨name, c₁⟩ := result
    rw [h] at hpoints
    obtain ⟨l, hrest, -, hlast⟩ := Cursor.of_name h
    exact ⟨⟨l, hrest ▸ List.mem_cons_self, hlast⟩, hrest ▸ List.suffix_cons l c₁.rest, hpoints⟩

theorem declaration_points (hc : c.Within ls) (hstart : Edge ls start) {type : Option String}
    (htype : ∀ t ∈ type, Named ls start c t) (place : Place) :
    StmtPoints ls (declaration depth start type place c) := by
  refine (name_behind hls hc place).bind ?_
  rintro ⟨name, c₁⟩ ⟨hname, hrest, hc₁⟩
  refine (initialValue_points hls depth hc₁).bind ?_
  rintro ⟨value, c₂⟩ ⟨hvalue, hbehind, hc₂⟩
  -- the last lexeme is the name, or it belongs to the value
  have hlast : Behind c c₂ := by
    rcases hbehind with rfl | ⟨m, hm, hlast⟩
    · exact hname
    · exact ⟨m, hrest.subset hm, hlast⟩
  refine (endOfStatement_points hls hc₂).bind fun c₃ hc₃ => ⟨?_, hc₃⟩
  exact .declare (hc₂.since hstart) (fun t ht => (htype t ht).holds hls hc hlast) hvalue

theorem assignment_points (hc : c.Within ls) (hstart : Edge ls start) {target : String}
    (htarget : Named ls start c target) (op : AssignOp) : StmtPoints ls (assignment depth start target op c) := by
  refine (expr_among hls depth hc).bind ?_
  rintro ⟨value, c₁⟩ ⟨hvalue, hbehind, hc₁⟩
  refine (endOfStatement_points hls hc₁).bind fun c₂ hc₂ => ⟨?_, hc₂⟩
  exact .assign (hc₁.since hstart) (htarget.holds hls hc hbehind) hvalue

theorem returned_points (hc : c.Within ls) : StmtPoints ls (returned depth c) := by
  unfold returned
  split
  · exact (endOfStatement_points hls hc).bind fun c₁ hc₁ => ⟨.ret (by simp), hc₁⟩
  · refine (expr_among hls depth hc).bind ?_
    rintro ⟨e, c₁⟩ ⟨he, -, hc₁⟩
    exact (endOfStatement_points hls hc₁).bind fun c₂ hc₂ => ⟨.ret (by simpa using he), hc₂⟩

theorem simpleStatement_points (hc : c.Within ls) : StmtPoints ls (simpleStatement depth c) := by
  have hstart := (hc.here hls).start
  have htype : ∀ {type ts}, c.ahead = .name type :: ts → ∀ t ∈ some type, Named ls c.here.start c.next t := by
    rintro type ts hahead t ⟨⟩
    exact named_of_ahead hls hc hahead
  unfold simpleStatement
  dsimp only
  split
  · exact declaration_points hls depth hc.next hstart (by simp) _
  · exact returned_points hls depth hc.next
  · rename_i hahead
    exact assignment_points hls depth hc.next.next hstart (named_of_ahead hls hc hahead).next _
  · rename_i hahead
    exact assignment_points hls depth hc.next.next hstart (named_of_ahead hls hc hahead).next _
  · rename_i hahead
    exact assignment_points hls depth hc.next.next hstart (named_of_ahead hls hc hahead).next _
  · rename_i hahead
    exact declaration_points hls depth hc.next hstart (htype hahead) _
  · rename_i hahead
    exact declaration_points hls depth hc.next hstart (htype hahead) _
  · refine (expr_among hls depth hc).bind ?_
    rintro ⟨e, c₁⟩ ⟨he, -, hc₁⟩
    exact (endOfStatement_points hls hc₁).bind fun c₂ hc₂ => ⟨.expr he, hc₂⟩

end

mutual

theorem statement_points {ls : List Lexeme} (hls : Ascending ls) (depth : Nat) {c : Cursor} (hc : c.Within ls) :
    StmtPoints ls (statement depth c) := by
  rw [statement]
  split
  · refine (hc.next.points_expect hls _).bind fun c₁ hc₁ => (expr_among hls depth hc₁).bind ?_
    rintro ⟨condition, c₂⟩ ⟨hcondition, -, hc₂⟩
    refine (hc₂.points_expect hls _).bind fun c₃ hc₃ => (body_points hls depth hc₃).bind ?_
    rintro ⟨yes, c₄⟩ ⟨hyes, hc₄⟩
    dsimp only
    split
    · refine (body_points hls depth hc₄.next).bind ?_
      rintro ⟨no, c₅⟩ ⟨hno, hc₅⟩
      exact ⟨.branch hcondition hyes (by simpa using hno), hc₅⟩
    · exact ⟨.branch hcondition hyes (by simp), hc₄⟩
  · exact simpleStatement_points hls depth hc
termination_by (depth, 2, 0)

theorem body_points {ls : List Lexeme} (hls : Ascending ls) (depth : Nat) {c : Cursor} (hc : c.Within ls) :
    BlockPoints ls (body depth c) := by
  cases depth with
  | zero =>
    rw [body]
    exact hc.points_fail hls _
  | succ depth =>
    rw [body]
    split
    · exact block_points hls depth _ hc.next (by simp)
    · refine (statement_points hls depth hc).map ?_
      rintro ⟨s, c₁⟩ ⟨hs, hc₁⟩
      exact ⟨by simpa using hs, hc₁⟩
termination_by (depth, 1, 0)

theorem block_points {ls : List Lexeme} (hls : Ascending ls) (depth : Nat) (bound : List Lexeme) {c : Cursor}
    (hc : c.Within ls) {done : List Stmt} (hdone : ∀ s ∈ done, s.Stands ls) :
    BlockPoints ls (block depth bound c done) := by
  rw [block.eq_def]
  split
  · exact ⟨by simpa using hdone, hc.next⟩
  · split
    · exact hc.points_fail hls _
    · exact hc.points_fail hls _
    · split
      · exact block_points hls depth _ hc.next hdone
      · refine (statement_points hls depth hc).bind ?_
        rintro ⟨s, c₁⟩ ⟨hs, hc₁⟩
        exact block_points hls depth _ hc₁ (List.forall_mem_cons.2 ⟨hs, hdone⟩)
termination_by (depth, 3, bound.length)

end

theorem statements_points {ls : List Lexeme} (hls : Ascending ls) (depth : Nat) (bound : List Lexeme) {c : Cursor}
    (hc : c.Within ls) {done : List Stmt} (hdone : ∀ s ∈ done, s.Stands ls) :
    Points ls (fun ss => ∀ s ∈ ss, s.Stands ls) (statements depth bound c done) := by
  unfold statements
  split
  · exact fun s hs => hdone s (List.mem_reverse.1 hs)
  · exact hc.points_fail hls _
  · split
    · exact statements_points hls depth _ hc.next hdone
    · refine (statement_points hls depth hc).bind ?_
      rintro ⟨s, c₁⟩ ⟨hs, hc₁⟩
      exact statements_points hls depth _ hc₁ (List.forall_mem_cons.2 ⟨hs, hdone⟩)
termination_by bound.length

theorem parseScript_points {ls : List Lexeme} (hls : Ascending ls) (depth : Nat) :
    Points ls (fun ss => ∀ s ∈ ss, s.Stands ls) (parseScript depth ls) :=
  statements_points hls depth ls ⟨List.suffix_rfl, .inl rfl⟩ (by simp)

end FactFold.Script
