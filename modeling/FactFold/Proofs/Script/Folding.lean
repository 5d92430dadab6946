import FactFold.Proofs.Script.Correctness
import FactFold.Proofs.Script.Dependence
import FactFold.Proofs.Script.LeastInteger
import FactFold.Proofs.Script.Signs

/-!
The parser makes a minus before a number part of the number. What it gives is the tree with every sign in it, folded
from the leaves on. No negative that is taken on the way is beyond 64 bits, and the folded tree means what the tree
with its signs means: negation is done when the script is read, or when it runs.
-/

namespace FactFold.Script

mutual

def Expr.folded : Expr → Expr
  | .literal l span => .literal l span
  | .name n span => .name n span
  | .field object name span => .field object.folded name span
  | .call function args span => .call function (foldedArgs args) span
  | .unary op operand span => .signed op operand.folded span
  | .binary op left right span => .binary op left.folded right.folded span
  | .conditional condition yes no span => .conditional condition.folded yes.folded no.folded span
termination_by structural e => e

def foldedArgs : List Expr → List Expr
  | [] => []
  | e :: rest => e.folded :: foldedArgs rest
termination_by structural es => es

end

theorem foldedArgs_eq (es : List Expr) : foldedArgs es = es.map Expr.folded := by
  induction es with
  | nil => rfl
  | cons e rest ih => rw [foldedArgs, ih, List.map_cons]

namespace Expr

theorem path?_signed (op : UnaryOp) (e : Expr) (span : Span) : (signed op e span).path? = none := by
  unfold signed
  split <;> rfl

theorem root?_signed (op : UnaryOp) (e : Expr) (span : Span) : (signed op e span).root? = none := by
  unfold signed
  split <;> rfl

theorem withSpan_signed (op : UnaryOp) (e : Expr) (s span : Span) :
    (signed op e s).withSpan span = signed op e span := by
  unfold signed
  split <;> rfl

theorem path?_folded (e : Expr) : e.folded.path? = e.path? := by
  cases e with
  | field object name span => exact congrArg (Option.map (· ++ "." ++ name)) object.path?_folded
  | unary op operand span => exact path?_signed op operand.folded span
  | _ => rfl
termination_by structural e

theorem root?_folded (e : Expr) : e.folded.root? = e.root? := by
  cases e with
  | field object name span => exact object.root?_folded
  | unary op operand span => exact root?_signed op operand.folded span
  | _ => rfl
termination_by structural e

theorem span_folded (e : Expr) : e.folded.span = e.span := by
  cases e with
  | unary op operand span => exact span_signed op operand.folded span
  | _ => rfl

theorem folded_withSpan (e : Expr) (span : Span) : (e.withSpan span).folded = e.folded.withSpan span := by
  cases e with
  | unary op operand s => exact (withSpan_signed op operand.folded s span).symm
  | _ => rfl

end Expr

theorem kept_turns : Signs.kept.Turns Expr.folded where
  path := Expr.path?_folded
  span := Expr.span_folded
  withSpan := Expr.folded_withSpan
  literal _ _ := rfl
  name _ _ := rfl
  field _ _ _ := rfl
  call function args span := by rw [Expr.folded, foldedArgs_eq]
  sign _ _ _ := rfl
  binary _ _ _ _ := rfl
  conditional _ _ _ _ := rfl

theorem parseScript_folded (depth : Nat) (ls : List Lexeme) :
    parseScript depth ls = (Signs.kept.parseScript depth ls).map (mapBlock Expr.folded) :=
  parseScript_turned kept_turns depth ls

theorem parseExpr_folded (depth : Nat) (ls : List Lexeme) :
    parseExpr depth ls = (Signs.kept.parseExpr depth ls).map Expr.folded :=
  parseExpr_turned kept_turns depth ls

section

variable {e inner : Expr} {op : UnaryOp} {span : Span}

theorem Expr.Negatable.part (h : e.Negatable) (hpart : inner ∈ e.parts) : inner.Negatable :=
  fun n place hn => h n place (.part hpart hn)

theorem Expr.Negatable.of_signed (h : (Expr.signed op e span).Negatable) : e.Negatable := by
  unfold Expr.signed at h
  split at h
  · rename_i n place
    intro m _ hm
    cases hm with
    | self =>
      rintro rfl
      exact h _ span (.self _) (by decide)
    | part hpart _ => cases hpart
  · intro m _ hm
    cases hm with
    | part hpart _ => cases hpart
  · exact h.part List.mem_cons_self

theorem negatable_folded_part (h : e.folded.Negatable) (hpart : inner ∈ e.parts) : inner.folded.Negatable := by
  cases e with
  | literal l span => cases hpart
  | name n span => cases hpart
  | unary op operand span => exact List.mem_singleton.1 hpart ▸ h.of_signed
  | call function args span =>
    have hargs : inner.folded ∈ foldedArgs args := foldedArgs_eq args ▸ List.mem_map_of_mem hpart
    exact h.part hargs
  | _ => exact h.part (List.mem_map_of_mem hpart)

def Expr.NegatesExactly (e : Expr) : Prop :=
  ∀ operand span, e.Contains (.unary .neg operand span) →
    ∀ n place, operand.folded = .literal (.int n) place → (-n).toInt = -n.toInt

theorem negatable_folded_of_contains (hn : e.Contains inner) (h : e.folded.Negatable) :
    inner.folded.Negatable := by
  induction hn with
  | self e => exact h
  | part hpart _ ih => exact ih (negatable_folded_part h hpart)

theorem negatesExactly_of_folded (h : e.folded.Negatable) : e.NegatesExactly := by
  intro operand span hnode n place hn
  have hsigned : (Expr.signed .neg operand.folded span).Negatable := negatable_folded_of_contains hnode h
  have hoperand := hsigned.of_signed
  rw [hn] at hoperand
  exact toInt_neg (hoperand n place (.self _))

end

namespace Compiler

variable {c : Compiler} {declared : List String} {σ : Type} [Frame σ] {frame : σ}

theorem pathConstant?_folded (e : Expr) : c.pathConstant? declared e.folded = c.pathConstant? declared e := by
  rw [pathConstant?, e.root?_folded, e.path?_folded, pathConstant?]

theorem eval_signed {e : Expr} (h : e.Negatable) (op : UnaryOp) (span : Span) :
    c.eval id declared frame (.signed op e span) = c.eval id declared frame e >>= Value.unary op := by
  unfold Expr.signed
  split
  · rename_i n place
    have hneg := int64?_neg (h n place (.self _))
    simp only [eval, Literal.value, id, ok_bind, Value.unary, hneg]
  · rfl
  · rfl

mutual

theorem eval_folded {e : Expr} (h : e.folded.Negatable) :
    c.eval id declared frame e.folded = c.eval id declared frame e := by
  have hparts (part : Expr) (hpart : part ∈ e.parts) := negatable_folded_part h hpart
  cases e with
  | literal l span => rfl
  | name n span => rfl
  | field object name span =>
    have hp : c.pathConstant? declared (.field object.folded name span) =
        c.pathConstant? declared (.field object name span) := pathConstant?_folded (.field object name span)
    have hobject := eval_folded (hparts object List.mem_cons_self)
    simp only [Expr.folded, eval, hp, hobject]
  | call function args span =>
    have hargs : c.evalAll id declared frame (foldedArgs args) = c.evalAll id declared frame args :=
      evalAll_folded hparts
    simp only [Expr.folded, eval, hargs]
  | unary op operand span =>
    have hoperand := hparts operand List.mem_cons_self
    rw [Expr.folded, eval_signed hoperand, eval_folded hoperand, eval]
  | binary op left right span =>
    have hleft := eval_folded (hparts left (by simp [Expr.parts]))
    have hright := eval_folded (hparts right (by simp [Expr.parts]))
    cases op <;> simp only [Expr.folded, eval, hleft, hright]
  | conditional condition yes no span =>
    have hcondition := eval_folded (hparts condition (by simp [Expr.parts]))
    have hyes := eval_folded (hparts yes (by simp [Expr.parts]))
    have hno := eval_folded (hparts no (by simp [Expr.parts]))
    simp only [Expr.folded, eval, hcondition, hyes, hno]
termination_by structural e

theorem evalAll_folded {es : List Expr} (h : ∀ e ∈ es, e.folded.Negatable) :
    c.evalAll id declared frame (foldedArgs es) = c.evalAll id declared frame es := by
  cases es with
  | nil => rfl
  | cons e rest =>
    have hfirst := eval_folded (h e List.mem_cons_self)
    have hrest := evalAll_folded fun e he => h e (List.mem_cons_of_mem _ he)
    simp only [foldedArgs, evalAll, hfirst, hrest]
termination_by structural es

end

end Compiler

mutual

theorem Stmt.declaring_mapExprs (f : Expr → Expr) (declared : List String) (s : Stmt) :
    (s.mapExprs f).declaring declared = s.declaring declared := by
  match s with
  | .branch condition yes none => exact declaringAll_mapBlock f declared yes
  | .branch condition yes (some no) =>
    simp only [Stmt.mapExprs, Stmt.declaring, declaringAll_mapBlock f _ yes, declaringAll_mapBlock f _ no]
  | .expr _ | .assign .. | .declare .. | .ret _ => rfl
termination_by structural s

theorem declaringAll_mapBlock (f : Expr → Expr) (declared : List String) (ss : List Stmt) :
    declaringAll declared (mapBlock f ss) = declaringAll declared ss := by
  match ss with
  | [] => rfl
  | s :: rest => rw [mapBlock, declaringAll, s.declaring_mapExprs f, declaringAll_mapBlock f _ rest, declaringAll]
termination_by structural ss

end

mutual

theorem Stmt.exprs_mapExprs (f : Expr → Expr) (s : Stmt) : (s.mapExprs f).exprs = s.exprs.map f := by
  match s with
  | .expr _ | .assign .. => rfl
  | .declare name type value span => cases value <;> rfl
  | .branch condition yes none => simp only [Stmt.mapExprs, Stmt.exprs, blockExprs_mapBlock f yes, List.map_cons]
  | .branch condition yes (some no) =>
    simp only [Stmt.mapExprs, Stmt.exprs, blockExprs_mapBlock f yes, blockExprs_mapBlock f no, List.map_cons,
      List.map_append]
  | .ret value => cases value <;> rfl
termination_by structural s

theorem blockExprs_mapBlock (f : Expr → Expr) (ss : List Stmt) :
    blockExprs (mapBlock f ss) = (blockExprs ss).map f := by
  match ss with
  | [] => rfl
  | s :: rest => simp only [mapBlock, blockExprs, s.exprs_mapExprs f, blockExprs_mapBlock f rest, List.map_append]
termination_by structural ss

end

namespace Compiler

def KeepsValue (c : Compiler) (σ : Type) [Frame σ] (read : Value → Value) (f : Expr → Expr) (e : Expr) : Prop :=
  ∀ (declared : List String) (frame : σ), c.eval read declared frame (f e) = c.eval read declared frame e

variable {c : Compiler} {σ : Type} [Frame σ] {read : Value → Value} {f : Expr → Expr}

theorem initial_map {value : Option Expr} (h : ∀ e ∈ value.toList, c.KeepsValue σ read f e) (declared : List String)
    (frame : σ) : c.initial read declared frame (value.map f) = c.initial read declared frame value := by
  cases value with
  | none => rfl
  | some e => exact h e List.mem_cons_self declared frame

mutual

theorem exec_mapExprs {s : Stmt} (h : ∀ e ∈ s.exprs, c.KeepsValue σ read f e) (declared : List String) (frame : σ) :
    c.exec read declared frame (s.mapExprs f) = c.exec read declared frame s := by
  match s with
  | .expr e => simp only [Stmt.mapExprs, exec, h e List.mem_cons_self declared frame]
  | .assign target .set value span => simp only [Stmt.mapExprs, exec, h value List.mem_cons_self declared frame]
  | .assign target (.update op) value span =>
    simp only [Stmt.mapExprs, exec, h value List.mem_cons_self declared frame]
  | .declare name type value span => simp only [Stmt.mapExprs, exec, initial_map h declared frame]
  | .branch condition yes none =>
    have hcondition := h condition List.mem_cons_self declared frame
    have hyes (frame : σ) := execAll_mapBlock (fun e he => h e (List.mem_cons_of_mem _ he)) declared frame
    simp only [Stmt.mapExprs, exec, hcondition, hyes]
  | .branch condition yes (some no) =>
    have hcondition := h condition List.mem_cons_self declared frame
    have hyes := execAll_mapBlock fun e he => h e (List.mem_cons_of_mem _ (List.mem_append_left _ he))
    have hno := execAll_mapBlock fun e he => h e (List.mem_cons_of_mem _ (List.mem_append_right _ he))
    simp only [Stmt.mapExprs, exec, hcondition, hyes, hno, declaringAll_mapBlock]
  | .ret (some value) => simp only [Stmt.mapExprs, Option.map, exec, h value List.mem_cons_self declared frame]
  | .ret none => rfl
termination_by structural s

theorem execAll_mapBlock {ss : List Stmt} (h : ∀ e ∈ blockExprs ss, c.KeepsValue σ read f e) (declared : List String)
    (frame : σ) : c.execAll read declared frame (mapBlock f ss) = c.execAll read declared frame ss := by
  match ss with
  | [] => rfl
  | s :: rest =>
    have hfirst := exec_mapExprs (fun e he => h e (List.mem_append_left _ he)) declared frame
    have hrest (frame : σ) :=
      execAll_mapBlock (fun e he => h e (List.mem_append_right _ he)) (s.declaring declared) frame
    simp only [mapBlock, execAll, hfirst, s.declaring_mapExprs f, hrest]
termination_by structural ss

end

theorem evaluate_mapBlock {ss : List Stmt} (h : ∀ e ∈ blockExprs ss, c.KeepsValue σ read f e) (declared : List String)
    (frame : σ) : c.evaluate read declared frame (mapBlock f ss) = c.evaluate read declared frame ss := by
  induction ss generalizing declared frame with
  | nil => rfl
  | cons s rest ih =>
    have hfirst := exec_mapExprs (fun e he => h e (List.mem_append_left _ he)) declared frame
    have hrest := ih fun e he => h e (List.mem_append_right _ he)
    by_cases hlast : rest ≠ [] ∨ ∀ e, s ≠ .expr e
    · have hmapped : mapBlock f rest ≠ [] ∨ ∀ e, s.mapExprs f ≠ .expr e := by
        rcases hlast with hne | hs
        · exact .inl fun hnil => hne (List.map_eq_nil_iff.1 (mapBlock_eq f rest ▸ hnil))
        · refine .inr fun e he => ?_
          cases s with
          | expr e => exact hs e rfl
          | branch condition yes no => cases no <;> cases he
          | _ => cases he
      rw [mapBlock, evaluate_cons read declared frame hmapped, evaluate_cons read declared frame hlast, hfirst,
        s.declaring_mapExprs f]
      cases c.exec read declared frame s with
      | ok frame => exact hrest _ frame
      | error outcome => rfl
    · -- the statement is the last one, an expression with the value of the script
      simp only [not_or, not_not, not_forall] at hlast
      obtain ⟨rfl, e, rfl⟩ := hlast
      simp only [mapBlock, Stmt.mapExprs, evaluate, h e List.mem_cons_self declared frame]

theorem evaluate_folded {us : List Stmt} (h : ∀ e ∈ blockExprs (mapBlock Expr.folded us), e.Negatable)
    (declared : List String) (frame : σ) :
    c.evaluate id declared frame (mapBlock Expr.folded us) = c.evaluate id declared frame us := by
  refine evaluate_mapBlock (fun e he declared frame => eval_folded (h _ ?_)) declared frame
  rw [blockExprs_mapBlock]
  exact List.mem_map_of_mem he

theorem run_folded {us : List Stmt} {p q : Program} (h : ∀ e ∈ blockExprs (mapBlock Expr.folded us), e.Negatable)
    (hp : c.program (mapBlock Expr.folded us) = .ok p) (hq : c.program us = .ok q)
    (hfolded : Faithful (c.literals [] (mapBlock Expr.folded us))) (hkept : Faithful (c.literals [] us))
    (limit : Nat) (frame : σ) :
    (p.run limit frame).result = .error (.stackOverflow limit) ∨
      (q.run limit frame).result = .error (.stackOverflow limit) ∨ p.run limit frame = q.run limit frame := by
  rcases run_program hp (hfolded.reads (program_literals hp)) limit frame with ⟨-, hover⟩ | hrun
  · exact .inl hover
  rcases run_program hq (hkept.reads (program_literals hq)) limit frame with ⟨-, hover⟩ | hrun'
  · exact .inr (.inl hover)
  · exact .inr (.inr (by rw [hrun, hrun', evaluate_folded h]))

end Compiler

/-- The least integer is nowhere in a tree that is parsed. The parser without folding gives the tree with its
signs, of which every negative that is taken is exact, and on every frame both come to the same. -/
theorem folding_keeps_meaning {source : String} {ls : List Lexeme} (hls : lexemes source = .ok ls) (depth : Nat) :
    (∀ ss, parseScript depth ls = .ok ss →
      (∀ e ∈ blockExprs ss, e.Negatable) ∧
      ∃ us, Signs.kept.parseScript depth ls = .ok us ∧ ss = mapBlock Expr.folded us ∧
        (∀ u ∈ blockExprs us, u.NegatesExactly) ∧
        ∀ (σ : Type) [Frame σ] (c : Compiler) (declared : List String) (frame : σ),
          c.evaluate id declared frame ss = c.evaluate id declared frame us) ∧
    ∀ e, parseExpr depth ls = .ok e →
      e.Negatable ∧
      ∃ u, Signs.kept.parseExpr depth ls = .ok u ∧ e = u.folded ∧ u.NegatesExactly ∧
        ∀ (σ : Type) [Frame σ] (c : Compiler) (declared : List String) (frame : σ),
          c.eval id declared frame e = c.eval id declared frame u := by
  have hunsigned : Unsigned ls := unsigned_of_lexemes hls
  constructor
  · intro ss hss
    have hneg := parseScript_negatable hss hunsigned
    rw [parseScript_folded] at hss
    obtain ⟨us, hus, rfl⟩ := map_eq_ok.1 hss
    refine ⟨hneg, us, hus, rfl, fun u hu => ?_, ?_⟩
    · apply negatesExactly_of_folded
      apply hneg
      rw [blockExprs_mapBlock]
      exact List.mem_map_of_mem hu
    · intro σ _ c declared frame
      exact Compiler.evaluate_folded hneg declared frame
  · intro e he
    have hneg := parseExpr_negatable he hunsigned
    rw [parseExpr_folded] at he
    obtain ⟨u, hu, rfl⟩ := map_eq_ok.1 he
    exact ⟨hneg, u, hu, rfl, negatesExactly_of_folded hneg, fun σ _ c declared frame => Compiler.eval_folded hneg⟩

-- The lexemes of `-(-9223372036854775807)-x`.
def greatestLessName : List Lexeme :=
  [⟨.fixed .minus, ⟨0, 1⟩⟩, ⟨.fixed .leftParen, ⟨1, 2⟩⟩, ⟨.fixed .minus, ⟨2, 3⟩⟩,
    ⟨.int 9223372036854775807, ⟨3, 22⟩⟩, ⟨.fixed .rightParen, ⟨22, 23⟩⟩, ⟨.fixed .minus, ⟨23, 24⟩⟩,
    ⟨.name "x", ⟨24, 25⟩⟩]

theorem folding_keeps_meaning_greatest :
    let greatest := Expr.literal (.int 9223372036854775807)
    let x := Expr.name "x" ⟨24, 25⟩
    let folded := Expr.binary (.strict (.arith .sub)) (greatest ⟨0, 23⟩) x ⟨0, 25⟩
    let kept := Expr.binary (.strict (.arith .sub))
      (.unary .neg (.unary .neg (greatest ⟨3, 22⟩) ⟨1, 23⟩) ⟨0, 23⟩) x ⟨0, 25⟩
    lexemes "-(-9223372036854775807)-x" = .ok greatestLessName ∧
      parseScript 4 greatestLessName = .ok [.expr folded] ∧
      Signs.kept.parseScript 4 greatestLessName = .ok [.expr kept] ∧
      (∀ (σ : Type) [Frame σ] (c : Compiler) (frame : σ),
        c.evaluate id [] frame [.expr folded] = c.evaluate id [] frame [.expr kept]) ∧
      parseExpr 4 greatestLessName = .ok folded ∧ folded.Negatable ∧ kept.NegatesExactly := by
  intro greatest x folded kept
  have hls : lexemes "-(-9223372036854775807)-x" = .ok greatestLessName := by cbv
  have hscript : parseScript 4 greatestLessName = .ok [.expr folded] := by cbv
  have hkept : Signs.kept.parseScript 4 greatestLessName = .ok [.expr kept] := by cbv
  have hexpr : parseExpr 4 greatestLessName = .ok folded := by cbv
  obtain ⟨-, us, hus, -, hexact, heval⟩ := (folding_keeps_meaning hls 4).1 _ hscript
  obtain rfl := Except.ok.inj (hkept.symm.trans hus)
  obtain ⟨hneg, -⟩ := (folding_keeps_meaning hls 4).2 _ hexpr
  exact ⟨hls, hscript, hkept, fun σ _ c frame => heval σ c [] frame, hexpr, hneg, hexact kept List.mem_cons_self⟩

end FactFold.Script
