import FactFold.Proofs.Script.Coverage

namespace FactFold.Script

inductive Expr.Contains : Expr → Expr → Prop
  | self (e : Expr) : Contains e e
  | part {e part n : Expr} (hpart : part ∈ e.parts) (hn : Contains part n) : Contains e n

mutual

def Stmt.exprs : Stmt → List Expr
  | .expr e => [e]
  | .assign _ _ value _ => [value]
  | .declare _ _ value _ => value.toList
  | .branch condition yes none => condition :: blockExprs yes
  | .branch condition yes (some no) => condition :: (blockExprs yes ++ blockExprs no)
  | .ret value => value.toList

def blockExprs : List Stmt → List Expr
  | [] => []
  | s :: ss => s.exprs ++ blockExprs ss

end

theorem CoversAll.covers {p : List Lexeme} {e : Expr} {es : List Expr} (h : CoversAll p es) (he : e ∈ es) :
    ∃ q, q <:+: p ∧ Covers q e := by
  induction es generalizing p with
  | nil => cases he
  | cons e' es ih =>
    cases h with
    | @cons gap q rest _ _ here behind =>
      rcases List.mem_cons.mp he with rfl | he
      · exact ⟨q, ⟨gap, rest, List.append_assoc ..⟩, here⟩
      · obtain ⟨q', hq', hcovers⟩ := ih behind he
        have hrest : rest <:+ gap ++ (q ++ rest) := ⟨gap ++ q, List.append_assoc ..⟩
        exact ⟨q', hq'.trans hrest.isInfix, hcovers⟩

theorem Covers.contains {p : List Lexeme} {e n : Expr} (h : Covers p e) (hn : e.Contains n) :
    ∃ q, q <:+: p ∧ Covers q n := by
  induction hn generalizing p with
  | self e => exact ⟨p, List.infix_rfl, h⟩
  | part hpart _ ih =>
    obtain ⟨q, hq, hcovers⟩ := h.parts.covers hpart
    obtain ⟨q', hq', hcovers'⟩ := ih hcovers
    exact ⟨q', hq'.trans hq, hcovers'⟩

structure Ascending (ls : List Lexeme) : Prop where
  forward : ∀ l ∈ ls, l.span.start ≤ l.span.stop
  ordered : ls.Pairwise fun l l' => l.span.stop ≤ l'.span.start

section

variable {p q ls : List Lexeme} {l : Lexeme} {e : Expr} {es : List Expr}

theorem exists_firstByte (hp : p ≠ []) : ∃ l ∈ p, l.span.start = firstByte p := by
  obtain ⟨l, p, rfl⟩ := List.exists_cons_of_ne_nil hp
  exact ⟨l, List.mem_cons_self, rfl⟩

theorem exists_lastByte (hp : p ≠ []) : ∃ l ∈ p, l.span.stop = lastByte p := by
  refine ⟨p.getLast hp, List.getLast_mem hp, ?_⟩
  rw [lastByte, List.getLast?_eq_some_getLast hp]
  rfl

namespace Ascending

theorem of_infix (h : Ascending ls) (hp : p <:+: ls) : Ascending p :=
  ⟨fun l hl => h.forward l (hp.subset hl), h.ordered.sublist hp.sublist⟩

theorem firstByte_le (h : Ascending p) (hl : l ∈ p) : firstByte p ≤ l.span.start := by
  cases p with
  | nil => cases hl
  | cons first p =>
    rcases List.mem_cons.mp hl with rfl | hl
    · exact Nat.le_refl _
    · exact (h.forward first List.mem_cons_self).trans ((List.pairwise_cons.mp h.ordered).1 l hl)

theorem le_lastByte (h : Ascending p) (hl : l ∈ p) : l.span.stop ≤ lastByte p := by
  rcases List.eq_nil_or_concat p with rfl | ⟨front, last, rfl⟩
  · cases hl
  · rw [List.concat_eq_append] at h hl ⊢
    have hlast : lastByte (front ++ [last]) = last.span.stop := lastByte_append front (List.cons_ne_nil last [])
    rw [hlast]
    rcases List.mem_append.mp hl with hl | hl
    · have hle := (List.pairwise_append.mp h.ordered).2.2 l hl last List.mem_cons_self
      exact hle.trans (h.forward last (List.mem_append_right front List.mem_cons_self))
    · rw [List.mem_singleton.mp hl]

theorem firstByte_le_lastByte (h : Ascending p) (hp : p ≠ []) : firstByte p ≤ lastByte p := by
  obtain ⟨l, hl, hfirst⟩ := exists_firstByte hp
  rw [← hfirst]
  exact (h.forward l hl).trans (h.le_lastByte hl)

end Ascending

theorem Covers.nonempty (hp : Covers p e) : p ≠ [] := by
  cases hp with
  | node nonempty _ _ _ => exact nonempty

theorem Covers.span_eq (hp : Covers p e) (h : Ascending p) : e.span = ⟨firstByte p, lastByte p⟩ := by
  cases hp with
  | node nonempty _ span _ => rw [span, stretch, max_eq_right (h.firstByte_le_lastByte nonempty)]

theorem Covers.inside (hq : Covers q e) (h : Ascending p) (hqp : q <:+: p) :
    firstByte p ≤ e.span.start ∧ e.span.start ≤ e.span.stop ∧ e.span.stop ≤ lastByte p := by
  obtain ⟨first, hfirst, hstart⟩ := exists_firstByte hq.nonempty
  obtain ⟨last, hlast, hstop⟩ := exists_lastByte hq.nonempty
  rw [hq.span_eq (h.of_infix hqp)]
  refine ⟨?_, (h.of_infix hqp).firstByte_le_lastByte hq.nonempty, ?_⟩
  · rw [← hstart]
    exact h.firstByte_le (hqp.subset hfirst)
  · rw [← hstop]
    exact h.le_lastByte (hqp.subset hlast)

theorem CoversAll.apart (hp : CoversAll p es) (h : Ascending p) :
    es.Pairwise fun a b => a.span.stop ≤ b.span.start := by
  induction es generalizing p with
  | nil => exact .nil
  | cons e es ih =>
    cases hp with
    | @cons gap q rest _ _ here behind =>
      have hqrest : Ascending (q ++ rest) := h.of_infix ⟨gap, [], by simp⟩
      have hq : Ascending q := hqrest.of_infix ⟨[], rest, rfl⟩
      have hrest : Ascending rest := hqrest.of_infix ⟨q, [], by simp⟩
      refine .cons (fun e' he' => ?_) (ih behind hrest)
      obtain ⟨q', hq', hcovers⟩ := behind.covers he'
      obtain ⟨last, hlast, hstop⟩ := exists_lastByte here.nonempty
      obtain ⟨first, hfirst, hstart⟩ := exists_firstByte hcovers.nonempty
      rw [here.span_eq hq, hcovers.span_eq (hrest.of_infix hq'), ← hstop, ← hstart]
      exact (List.pairwise_append.mp hqrest.ordered).2.2 last hlast first (hq'.subset hfirst)

end

structure Placed (ls : List Lexeme) (n : Expr) (i j : Nat) : Prop where
  ordered : i ≤ j
  start : ls[i]?.map (·.span.start) = some n.span.start
  stop : ls[j]?.map (·.span.stop) = some n.span.stop
  alone : ∃ enough, ∀ depth, enough ≤ depth → parseExpr depth (ls.extract i (j + 1)) = .ok n
  inside : ∀ part ∈ n.parts, n.span.start ≤ part.span.start ∧ part.span.start ≤ part.span.stop ∧
    part.span.stop ≤ n.span.stop
  apart : n.parts.Pairwise fun a b => a.span.stop ≤ b.span.start

theorem Alone.eventually {p : List Lexeme} {e : Expr} (h : Alone p e) :
    ∃ enough, ∀ depth, enough ≤ depth → parseExpr depth p = .ok e := by
  obtain ⟨enough, h⟩ := h
  exact ⟨enough, fun depth hdepth => (parseExpr_limited hdepth p).eq_ok h⟩

theorem Covers.placed {ls p : List Lexeme} {n : Expr} (h : Covers p n) (hls : Ascending ls) (hp : p <:+: ls) :
    ∃ i j, Placed ls n i j := by
  have hascending := hls.of_infix hp
  have hspan := h.span_eq hascending
  obtain ⟨before, after, rfl⟩ := hp
  obtain ⟨first, rest, rfl⟩ := List.exists_cons_of_ne_nil h.nonempty
  have hfirst : (before ++ (first :: rest) ++ after)[before.length]? = some first := by simp
  have hlast : (before ++ (first :: rest) ++ after)[before.length + rest.length]? = (first :: rest).getLast? := by
    rw [List.append_assoc, List.getElem?_append_right (Nat.le_add_right _ _), Nat.add_sub_cancel_left,
      List.getElem?_append_left (Nat.lt_succ_self _), List.getLast?_eq_getElem?]
    rfl
  have hcut : (before ++ (first :: rest) ++ after).extract before.length (before.length + rest.length + 1) =
      first :: rest := by
    rw [List.extract_eq_take_drop, List.append_assoc, List.drop_left, Nat.add_assoc, Nat.add_sub_cancel_left]
    have htake : ((first :: rest) ++ after).take (first :: rest).length = first :: rest := List.take_left
    exact htake
  refine ⟨before.length, before.length + rest.length, Nat.le_add_right _ _, ?_, ?_, ?_, fun part hpart => ?_, ?_⟩
  · rw [hspan, hfirst]
    rfl
  · rw [hspan, hlast, lastByte, List.getLast?_eq_some_getLast (List.cons_ne_nil first rest)]
    rfl
  · rw [hcut]
    cases h with
    | node _ alone _ _ => exact alone.eventually
  · obtain ⟨q, hq, hcovers⟩ := h.parts.covers hpart
    rw [hspan]
    exact hcovers.inside hascending hq
  · exact h.parts.apart hascending

def Passes (c : Cursor) (es : List Expr) (c' : Cursor) : Prop :=
  ∃ p, c.rest = p ++ c'.rest ∧ CoversAll p es

section

variable {c c₁ c' : Cursor} {es fs : List Expr} {depth start : Nat} {s : Stmt}

theorem Passes.append (h : Passes c es c₁) (h' : Passes c₁ fs c') : Passes c (es ++ fs) c' := by
  obtain ⟨p, hp, hes⟩ := h
  obtain ⟨q, hq, hfs⟩ := h'
  exact ⟨p ++ q, by rw [hp, hq, List.append_assoc], hes.append hfs⟩

theorem passes_refl (c : Cursor) : Passes c [] c :=
  ⟨[], rfl, .nil []⟩

theorem passes_next (c : Cursor) : Passes c [] c.next := by
  obtain ⟨last, _ | ⟨l, rest⟩⟩ := c
  · exact passes_refl _
  · exact ⟨[l], rfl, .nil [l]⟩

theorem passes_expect {f : Fixed} (h : c.expect f = .ok c') : Passes c [] c' := by
  obtain ⟨l, hl, -, -⟩ := Cursor.of_expect h
  exact ⟨[l], hl, .nil [l]⟩

theorem passes_name {place : Place} {n : String} (h : c.name place = .ok (n, c')) : Passes c [] c' := by
  obtain ⟨l, hl, -, -⟩ := Cursor.of_name h
  exact ⟨[l], hl, .nil [l]⟩

theorem passes_expr {e : Expr} (h : expr depth c = .ok (e, c')) : Passes c [e] c' := by
  obtain ⟨p, hp, he⟩ := expr_takes h
  exact ⟨p, hp.rest, he.all⟩

theorem passes_endOfStatement (h : endOfStatement c = .ok c') : Passes c [] c' := by
  unfold endOfStatement at h
  split at h
  · cases h
    exact passes_next c
  · split at h
    · cases h
      exact passes_refl c
    · exact passes_expect h

theorem passes_initialValue {value : Option Expr} (h : initialValue depth c = .ok (value, c')) :
    Passes c value.toList c' := by
  unfold initialValue at h
  split at h
  · obtain ⟨⟨e, c₁⟩, h₁, heq⟩ := map_eq_ok.mp h
    cases heq
    exact (passes_next c).append (passes_expr h₁)
  · cases h
    exact passes_refl c

theorem passes_declaration {type : Option String} {place : Place}
    (h : declaration depth start type place c = .ok (s, c')) : Passes c s.exprs c' := by
  obtain ⟨⟨name, c₁⟩, h₁, h⟩ := bind_eq_ok.mp h
  obtain ⟨⟨value, c₂⟩, h₂, h⟩ := bind_eq_ok.mp h
  obtain ⟨c₃, h₃, h⟩ := bind_eq_ok.mp h
  cases h
  have hvalue := (passes_name h₁).append ((passes_initialValue h₂).append (passes_endOfStatement h₃))
  rwa [List.append_nil] at hvalue

theorem passes_expr_end {e : Expr} (h : expr depth c = .ok (e, c₁)) (hend : endOfStatement c₁ = .ok c') :
    Passes c [e] c' :=
  (passes_expr h).append (passes_endOfStatement hend)

theorem passes_assignment {target : String} {op : AssignOp}
    (h : assignment depth start target op c = .ok (s, c')) : Passes c s.exprs c' := by
  obtain ⟨⟨e, c₁⟩, h₁, h⟩ := bind_eq_ok.mp h
  obtain ⟨c₂, h₂, h⟩ := bind_eq_ok.mp h
  cases h
  exact passes_expr_end h₁ h₂

theorem passes_returned (h : returned depth c = .ok (s, c')) : Passes c s.exprs c' := by
  unfold returned at h
  split at h
  · obtain ⟨c₁, h₁, h⟩ := bind_eq_ok.mp h
    cases h
    exact passes_endOfStatement h₁
  · obtain ⟨⟨e, c₁⟩, h₁, h⟩ := bind_eq_ok.mp h
    obtain ⟨c₂, h₂, h⟩ := bind_eq_ok.mp h
    cases h
    exact passes_expr_end h₁ h₂

theorem passes_simpleStatement (h : simpleStatement depth c = .ok (s, c')) : Passes c s.exprs c' := by
  have htwo : Passes c [] c.next.next := (passes_next c).append (passes_next c.next)
  simp only [simpleStatement] at h
  split at h
  · exact (passes_next c).append (passes_declaration h)
  · exact (passes_next c).append (passes_returned h)
  · exact htwo.append (passes_assignment h)
  · exact htwo.append (passes_assignment h)
  · exact htwo.append (passes_assignment h)
  · exact (passes_next c).append (passes_declaration h)
  · exact (passes_next c).append (passes_declaration h)
  · obtain ⟨⟨e, c₁⟩, h₁, h⟩ := bind_eq_ok.mp h
    obtain ⟨c₂, h₂, h⟩ := bind_eq_ok.mp h
    cases h
    exact passes_expr_end h₁ h₂

end

mutual

theorem passes_statement {depth : Nat} {s : Stmt} {c c' : Cursor} (h : statement depth c = .ok (s, c')) :
    Passes c s.exprs c' := by
  rw [statement] at h
  split at h
  · obtain ⟨c₁, h₁, h⟩ := bind_eq_ok.mp h
    obtain ⟨⟨condition, c₂⟩, h₂, h⟩ := bind_eq_ok.mp h
    obtain ⟨c₃, h₃, h⟩ := bind_eq_ok.mp h
    obtain ⟨⟨yes, c₄⟩, h₄, h⟩ := bind_eq_ok.mp h
    have hopen : Passes c [] c₁ := (passes_next c).append (passes_expect h₁)
    have hcondition : Passes c [condition] c₃ := hopen.append ((passes_expr h₂).append (passes_expect h₃))
    have hyes := hcondition.append (passes_body h₄)
    dsimp only at h
    split at h
    · obtain ⟨⟨no, c₅⟩, h₅, h⟩ := bind_eq_ok.mp h
      cases h
      have hno := hyes.append ((passes_next c₄).append (passes_body h₅))
      rwa [List.append_assoc] at hno
    · cases h
      exact hyes
  · exact passes_simpleStatement h
termination_by (depth, 2, 0)

theorem passes_body {depth : Nat} {ss : List Stmt} {c c' : Cursor} (h : body depth c = .ok (ss, c')) :
    Passes c (blockExprs ss) c' := by
  cases depth with
  | zero =>
    rw [body] at h
    cases h
  | succ depth =>
    rw [body] at h
    split at h
    · obtain ⟨ss', rfl, hss⟩ := passes_block h
      exact (passes_next c).append hss
    · obtain ⟨⟨s, c₁⟩, h₁, heq⟩ := map_eq_ok.mp h
      cases heq
      exact (passes_statement h₁).append (passes_refl c')
termination_by (depth, 1, 0)

theorem passes_block {depth : Nat} {bound : List Lexeme} {done ss : List Stmt} {c c' : Cursor}
    (h : block depth bound c done = .ok (ss, c')) :
    ∃ ss', ss = done.reverse ++ ss' ∧ Passes c (blockExprs ss') c' := by
  rw [block.eq_def] at h
  split at h
  · cases h
    exact ⟨[], by simp, passes_next c⟩
  · split at h
    · cases h
    · cases h
    · split at h
      · obtain ⟨ss', hss, hpasses⟩ := passes_block h
        exact ⟨ss', hss, (passes_next c).append hpasses⟩
      · obtain ⟨⟨s, c₁⟩, h₁, h⟩ := bind_eq_ok.mp h
        obtain ⟨ss', hss, hpasses⟩ := passes_block h
        exact ⟨s :: ss', by simp [hss], (passes_statement h₁).append hpasses⟩
termination_by (depth, 3, bound.length)

end

theorem statements_coversAll {depth : Nat} {bound : List Lexeme} {done ss : List Stmt} {c : Cursor}
    (h : statements depth bound c done = .ok ss) :
    ∃ ss', ss = done.reverse ++ ss' ∧ CoversAll c.rest (blockExprs ss') := by
  unfold statements at h
  split at h
  · cases h
    exact ⟨[], by simp, .nil _⟩
  · cases h
  · split at h
    · obtain ⟨ss', hss, hcovers⟩ := statements_coversAll h
      obtain ⟨p, hp, hnil⟩ := passes_next c
      exact ⟨ss', hss, hp ▸ hnil.append hcovers⟩
    · obtain ⟨⟨s, c₁⟩, h₁, h⟩ := bind_eq_ok.mp h
      obtain ⟨ss', hss, hcovers⟩ := statements_coversAll h
      obtain ⟨p, hp, hs⟩ := passes_statement h₁
      exact ⟨s :: ss', by simp [hss], hp ▸ hs.append hcovers⟩
termination_by bound.length

theorem parseScript_coversAll {depth : Nat} {ls : List Lexeme} {ss : List Stmt} (h : parseScript depth ls = .ok ss) :
    CoversAll ls (blockExprs ss) := by
  obtain ⟨ss', rfl, hcovers⟩ := statements_coversAll h
  exact hcovers

theorem parseExpr_covers {depth : Nat} {ls : List Lexeme} {e : Expr} (h : parseExpr depth ls = .ok e) :
    Covers ls e := by
  obtain ⟨⟨e', c⟩, h₁, h⟩ := bind_eq_ok.mp h
  obtain ⟨p, hp, he⟩ := expr_takes h₁
  dsimp only at h
  split at h
  · rename_i hnone
    cases h
    have hls : ls = p ++ c.rest := hp.rest
    rw [Cursor.peek?, Option.map_eq_none_iff, List.head?_eq_none_iff] at hnone
    rw [hnone, List.append_nil] at hls
    exact hls ▸ he
  · cases h

theorem nodes_placed {ls : List Lexeme} (hls : Ascending ls) (depth : Nat) :
    (∀ ss, parseScript depth ls = .ok ss → ∀ e ∈ blockExprs ss, ∀ n, e.Contains n → ∃ i j, Placed ls n i j) ∧
      ∀ e, parseExpr depth ls = .ok e → ∀ n, e.Contains n → ∃ i j, Placed ls n i j := by
  refine ⟨fun ss h e he n hn => ?_, fun e h n hn => ?_⟩
  · obtain ⟨p, hp, hcovers⟩ := (parseScript_coversAll h).covers he
    obtain ⟨q, hq, hnode⟩ := hcovers.contains hn
    exact hnode.placed hls (hq.trans hp)
  · obtain ⟨q, hq, hnode⟩ := (parseExpr_covers h).contains hn
    exact hnode.placed hls hq

-- The lexemes of `(a+b)*-c`.
def groupedProduct : List Lexeme :=
  [⟨.fixed .leftParen, ⟨0, 1⟩⟩, ⟨.name "a", ⟨1, 2⟩⟩, ⟨.fixed .plus, ⟨2, 3⟩⟩, ⟨.name "b", ⟨3, 4⟩⟩,
    ⟨.fixed .rightParen, ⟨4, 5⟩⟩, ⟨.fixed .star, ⟨5, 6⟩⟩, ⟨.fixed .minus, ⟨6, 7⟩⟩, ⟨.name "c", ⟨7, 8⟩⟩]

theorem nodes_placed_sum :
    let sum := Expr.binary (.strict (.arith .add)) (.name "a" ⟨1, 2⟩) (.name "b" ⟨3, 4⟩) ⟨0, 5⟩
    let product := Expr.binary (.strict (.arith .mul)) sum (.unary .neg (.name "c" ⟨7, 8⟩) ⟨6, 8⟩) ⟨0, 8⟩
    Ascending groupedProduct ∧ parseScript 4 groupedProduct = .ok [.expr product] ∧
      product ∈ blockExprs [.expr product] ∧ product.Contains sum ∧ (∃ i j, Placed groupedProduct sum i j) ∧
      parseExpr 4 groupedProduct = .ok product ∧ ∃ i j, Placed groupedProduct product i j := by
  intro sum product
  have hls : Ascending groupedProduct := ⟨by decide, by decide⟩
  have hscript : parseScript 4 groupedProduct = .ok [.expr product] := by cbv
  have hexpr : parseExpr 4 groupedProduct = .ok product := by cbv
  have hproduct : product ∈ blockExprs [.expr product] := List.mem_singleton.mpr rfl
  have hsum : product.Contains sum := .part List.mem_cons_self (.self sum)
  exact ⟨hls, hscript, hproduct, hsum, (nodes_placed hls 4).1 _ hscript _ hproduct _ hsum, hexpr,
    (nodes_placed hls 4).2 _ hexpr _ (.self product)⟩

end FactFold.Script
