import FactFold.Proofs.Script.ParseErrors
import FactFold.Proofs.Script.Slices
import FactFold.Script.Compile

namespace FactFold.Script

theorem Expr.Among.part {ls : List Lexeme} {e part : Expr} (h : e.Among ls)
    (hpart : part ∈ e.parts) : part.Among ls := by
  obtain ⟨p, hp, hcovers⟩ := h
  obtain ⟨q, hq, hcovers'⟩ := hcovers.parts.covers hpart
  exact ⟨q, hq.trans hp, hcovers'⟩

def ScriptError.Stands (ls : List Lexeme) : ScriptError → Prop
  | .lex _ => False
  | .parse e => e.span.Stands ls
  | .unknownName name span => span.Stands ls ∧ span.Holds ls name
  | .unknownType name span => span.Stands ls ∧ span.Holds ls name
  | .unknownFunction _ span => span.Stands ls
  | .notAssignable target span => span.Stands ls ∧ span.Holds ls target
  | .tooLarge _ => True

def Refuses {α : Type} (ls : List Lexeme) (x : Except ScriptError α) : Prop :=
  ∀ e, x = .error e → e.Stands ls

section

variable {α β : Type} {ls : List Lexeme} {x : Except ScriptError α} {d : Draft}

theorem refuses_ok (ls : List Lexeme) (a : α) : Refuses ls (.ok a) := by
  rintro e ⟨⟩

theorem refuses_error {e : ScriptError} (he : e.Stands ls) : Refuses (α := α) ls (.error e) := by
  rintro _ ⟨⟩
  exact he

theorem Refuses.bind {f : α → Except ScriptError β} (hx : Refuses ls x) (hf : ∀ a, Refuses ls (f a)) :
    Refuses ls (x >>= f) := by
  intro e h
  rcases bind_eq_error.1 h with h | ⟨a, -, h⟩
  · exact hx e h
  · exact hf a e h

theorem Refuses.map (hx : Refuses ls x) (f : α → β) : Refuses ls (x.map f) :=
  fun e h => hx e (map_eq_error.1 h)

theorem refuses_add (ls : List Lexeme) (d : Draft) (entry : Except CodeLimit (UInt16 × Tables)) :
    Refuses ls (d.add entry) := by
  unfold Draft.add
  split
  · exact refuses_ok ls _
  · exact refuses_error trivial

theorem refuses_literal (ls : List Lexeme) (d : Draft) (v : Value) : Refuses ls (d.literal v) :=
  (refuses_add ls d _).map _

theorem refuses_distance (ls : List Lexeme) (n : Nat) : Refuses ls (distance n) := by
  unfold distance
  cases index16 .jump n with
  | ok i => exact refuses_ok ls i
  | error limit => exact refuses_error trivial

end

namespace Compiler

section

variable {c : Compiler} {ls : List Lexeme} {name : String} {span : Span}

theorem refuses_addFunction (ls : List Lexeme) (function : String) (native : Native) (d : Draft) :
    Refuses ls (addFunction function native d) :=
  (refuses_add ls d _).map _

theorem load_refuses (hspan : span.Stands ls) (hname : span.Holds ls name) (d : Draft) :
    Refuses ls (c.load name span d) := by
  unfold load
  cases c.classify d name with
  | slot slot type => exact refuses_ok ls _
  | declared => exact (refuses_add ls d _).map _
  | constant v => exact refuses_literal ls d v
  | unknown =>
    dsimp only
    split
    · exact refuses_error (e := .unknownName name span) ⟨hspan, hname⟩
    · exact (refuses_add ls d _).map _

theorem store_refuses (hspan : span.Stands ls) (hname : span.Holds ls name) (d : Draft) :
    Refuses ls (c.store name span d) := by
  unfold store
  cases c.classify d name with
  | slot slot type =>
    dsimp only
    split
    · exact (refuses_add ls d _).map _
    · exact refuses_ok ls _
  | declared => exact (refuses_add ls d _).map _
  | constant v => exact refuses_error (e := .notAssignable name span) ⟨hspan, hname⟩
  | unknown =>
    dsimp only
    split
    · exact refuses_error (e := .unknownName name span) ⟨hspan, hname⟩
    · exact (refuses_add ls d _).map _

theorem declaredType_refuses {type : Option String} (hspan : span.Stands ls)
    (htype : ∀ t ∈ type, span.Holds ls t) (d : Draft) : Refuses ls (c.declaredType type span d) := by
  unfold declaredType
  split
  · exact refuses_ok ls _
  · split
    · exact refuses_error (e := .unknownType _ span) ⟨hspan, htype _ rfl⟩
    · exact (refuses_add ls d _).map _

end

mutual

theorem expr_refuses {c : Compiler} {ls : List Lexeme} (hls : Ascending ls) {e : Expr} (he : e.Among ls) (d : Draft) :
    Refuses ls (c.expr e d) := by
  obtain ⟨p, hp, hcovers⟩ := he
  have hspan := hcovers.stands hls hp
  have hpart : ∀ part ∈ e.parts, part.Among ls := fun part => Expr.Among.part ⟨p, hp, hcovers⟩
  cases e with
  | literal l span =>
    rw [expr]
    exact refuses_literal ls d _
  | name n span =>
    rw [expr]
    exact load_refuses hspan (hcovers.holds hls hp) d
  | field object name span =>
    rw [expr]
    split
    · exact refuses_literal ls d _
    · refine (expr_refuses hls (hpart object (by simp [Expr.parts])) d).bind ?_
      rintro ⟨code, d₁⟩
      exact (refuses_add ls d₁ _).bind fun _ => refuses_ok ls _
  | call function args span =>
    rw [expr]
    split
    · exact refuses_error hspan
    · split
      · refine (arguments_refuses hls hpart d).bind ?_
        rintro ⟨code, d₁⟩
        exact (refuses_addFunction ls function _ d₁).bind fun _ => refuses_ok ls _
      · exact refuses_error trivial
  | unary op operand span =>
    rw [expr]
    exact (expr_refuses hls (hpart operand (by simp [Expr.parts])) d).bind fun _ => refuses_ok ls _
  | binary op left right span =>
    have hleft := hpart left (by simp [Expr.parts])
    have hright := hpart right (by simp [Expr.parts])
    cases op with
    | strict op =>
      rw [expr]
      refine (expr_refuses hls hleft d).bind ?_
      rintro ⟨first, d₁⟩
      exact (expr_refuses hls hright d₁).bind fun _ => refuses_ok ls _
    | and =>
      rw [expr]
      refine (expr_refuses hls hleft d).bind ?_
      rintro ⟨first, d₁⟩
      refine (expr_refuses hls hright d₁).bind ?_
      rintro ⟨second, d₂⟩
      refine (refuses_literal ls d₂ _).bind ?_
      rintro ⟨yes, d₃⟩
      refine (refuses_distance ls _).bind fun toNo => (refuses_literal ls d₃ _).bind ?_
      exact fun _ => refuses_ok ls _
    | or =>
      rw [expr]
      refine (expr_refuses hls hleft d).bind ?_
      rintro ⟨first, d₁⟩
      refine (refuses_literal ls d₁ _).bind ?_
      rintro ⟨yes, d₂⟩
      refine (expr_refuses hls hright d₂).bind ?_
      rintro ⟨second, d₃⟩
      refine (refuses_literal ls d₃ _).bind ?_
      rintro ⟨yes', d₄⟩
      refine (refuses_literal ls d₄ _).bind ?_
      rintro ⟨no, d₅⟩
      exact (refuses_distance ls _).bind fun _ => refuses_ok ls _
  | conditional condition yes no span =>
    rw [expr]
    refine (expr_refuses hls (hpart condition (by simp [Expr.parts])) d).bind ?_
    rintro ⟨test, d₁⟩
    refine (expr_refuses hls (hpart yes (by simp [Expr.parts])) d₁).bind ?_
    rintro ⟨first, d₂⟩
    refine (refuses_distance ls _).bind fun toNo => ?_
    refine (expr_refuses hls (hpart no (by simp [Expr.parts])) d₂).bind ?_
    rintro ⟨second, d₃⟩
    exact (refuses_distance ls _).bind fun _ => refuses_ok ls _
termination_by structural e

theorem arguments_refuses {c : Compiler} {ls : List Lexeme} (hls : Ascending ls) {args : List Expr}
    (hargs : ∀ e ∈ args, e.Among ls) (d : Draft) : Refuses ls (c.arguments args d) := by
  cases args with
  | nil =>
    rw [arguments]
    exact refuses_ok ls _
  | cons e rest =>
    rw [arguments]
    obtain ⟨he, hrest⟩ := List.forall_mem_cons.1 hargs
    refine (expr_refuses hls he d).bind ?_
    rintro ⟨first, d₁⟩
    exact (arguments_refuses hls hrest d₁).bind fun _ => refuses_ok ls _
termination_by structural args

end

mutual

theorem stmt_refuses {c : Compiler} {ls : List Lexeme} (hls : Ascending ls) {s : Stmt} (hs : s.Stands ls)
    (d : Draft) : Refuses ls (c.stmt s d) := by
  cases s with
  | expr e =>
    rw [stmt]
    cases hs with
    | expr he => exact (expr_refuses hls he d).bind fun _ => refuses_ok ls _
  | assign target op value span =>
    cases hs with
    | assign hspan htarget hvalue =>
    cases op with
    | set =>
      rw [stmt]
      refine (expr_refuses hls hvalue d).bind ?_
      rintro ⟨code, d₁⟩
      exact (store_refuses hspan htarget d₁).bind fun _ => refuses_ok ls _
    | update op =>
      rw [stmt]
      refine (load_refuses hspan htarget d).bind ?_
      rintro ⟨old, d₁⟩
      refine (expr_refuses hls hvalue d₁).bind ?_
      rintro ⟨code, d₂⟩
      exact (store_refuses hspan htarget d₂).bind fun _ => refuses_ok ls _
  | declare name type value span =>
    cases hs with
    | declare hspan htype hvalue =>
    rw [stmt]
    refine (declaredType_refuses hspan htype d).bind ?_
    rintro ⟨type', d₁⟩
    cases value with
    | some value =>
      refine (expr_refuses hls (hvalue value rfl) d₁).bind ?_
      rintro ⟨code, d₂⟩
      exact (refuses_add ls d₂ _).bind fun _ => refuses_ok ls _
    | none =>
      refine (refuses_literal ls d₁ _).bind ?_
      rintro ⟨code, d₂⟩
      exact (refuses_add ls d₂ _).bind fun _ => refuses_ok ls _
  | branch condition yes no =>
    cases hs with
    | branch hcondition hyes hno =>
    cases no with
    | none =>
      rw [stmt]
      refine (expr_refuses hls hcondition d).bind ?_
      rintro ⟨test, d₁⟩
      refine (block_refuses hls hyes d₁ []).bind ?_
      rintro ⟨first, d₂⟩
      exact (refuses_distance ls _).bind fun _ => refuses_ok ls _
    | some no =>
      rw [stmt]
      refine (expr_refuses hls hcondition d).bind ?_
      rintro ⟨test, d₁⟩
      refine (block_refuses hls hyes d₁ []).bind ?_
      rintro ⟨first, d₂⟩
      refine (refuses_distance ls _).bind fun toNo => ?_
      refine (block_refuses hls (hno no rfl) d₂ []).bind ?_
      rintro ⟨second, d₃⟩
      exact (refuses_distance ls _).bind fun _ => refuses_ok ls _
  | ret value =>
    cases value with
    | none =>
      rw [stmt]
      exact refuses_ok ls _
    | some value =>
      rw [stmt]
      cases hs with
      | ret hvalue => exact (expr_refuses hls (hvalue value rfl) d).bind fun _ => refuses_ok ls _
termination_by structural s

theorem block_refuses {c : Compiler} {ls : List Lexeme} (hls : Ascending ls) {ss : List Stmt}
    (hss : ∀ s ∈ ss, s.Stands ls) (d : Draft) (done : List (List Op)) : Refuses ls (c.block ss d done) := by
  cases ss with
  | nil =>
    rw [block]
    exact refuses_ok ls _
  | cons s rest =>
    rw [block]
    obtain ⟨hs, hrest⟩ := List.forall_mem_cons.1 hss
    refine (stmt_refuses hls hs d).bind ?_
    rintro ⟨code, d₁⟩
    exact block_refuses hls hrest d₁ _
termination_by structural ss

end

section

variable {c : Compiler} {ls : List Lexeme} {ss : List Stmt}

theorem script_refuses (hls : Ascending ls) (hss : ∀ s ∈ ss, s.Stands ls) : Refuses ls (c.script ss) := by
  unfold script
  split
  · next e hlast =>
    have he : e.Among ls := by
      cases hss _ (List.mem_of_getLast? hlast) with
      | expr he => exact he
    refine (block_refuses hls (fun s hs => hss s (List.mem_of_mem_dropLast hs)) {} []).bind ?_
    rintro ⟨code, d⟩
    exact (expr_refuses hls he d).bind fun _ => refuses_ok ls _
  · exact block_refuses hls hss {} []

end

end Compiler

end FactFold.Script
