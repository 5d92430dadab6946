import FactFold.Proofs.Script.Translation

namespace FactFold.Script

namespace Compiler

variable (c : Compiler) (declared : List String)

mutual

def exprSize : Expr → Nat
  | .literal _ _ => 1
  | .name _ _ => 1
  | .field object name span =>
    match c.pathConstant? declared (.field object name span) with
    | some _ => 1
    | none => exprSize object + 1
  | .call _ args _ => argSize args + 1
  | .unary _ operand _ => exprSize operand + 1
  | .binary (.strict _) left right _ => exprSize left + exprSize right + 1
  | .binary .and left right _ => exprSize left + exprSize right + 5
  | .binary .or left right _ => exprSize left + exprSize right + 7
  | .conditional condition yes no _ => exprSize condition + exprSize yes + exprSize no + 2
termination_by structural e => e

def argSize : List Expr → Nat
  | [] => 0
  | e :: rest => exprSize e + argSize rest
termination_by structural es => es

end

def writeSize (name : String) : Nat :=
  match c.symbols.input name with
  | some (_, type) => if c.strict && type.isConstrained then 2 else 1
  | none => 1

def initialSize : Option Expr → Nat
  | some value => c.exprSize declared value
  | none => 1

mutual

def stmtSize (declared : List String) : Stmt → Nat
  | .expr e => c.exprSize declared e + 1
  | .assign target .set value _ => c.exprSize declared value + c.writeSize target + 1
  | .assign target (.update _) value _ => c.exprSize declared value + c.writeSize target + 3
  | .declare _ _ value _ => c.initialSize declared value + 1
  | .branch condition yes none => c.exprSize declared condition + 1 + blockSize declared yes
  | .branch condition yes (some no) =>
    c.exprSize declared condition + 1 + blockSize declared yes + 1 + blockSize (declaringAll declared yes) no
  | .ret (some value) => c.exprSize declared value + 1
  | .ret none => 1
termination_by structural s => s

def blockSize (declared : List String) : List Stmt → Nat
  | [] => 0
  | s :: rest => stmtSize declared s + blockSize (s.declaring declared) rest
termination_by structural ss => ss

end

end Compiler

section

variable {c : Compiler} {t : Tables} {declared : List String} {code : List Op}

theorem NameCode.length {name : String} (h : NameCode c t declared name code) : code.length = 1 := by
  cases h <;> rfl

theorem WriteCode.length {name : String} (h : WriteCode c t name code) : code.length = c.writeSize name := by
  cases h with
  | slot input free => simp [Compiler.writeSize, input, free]
  | typedSlot input typed index => simp [Compiler.writeSize, input, typed]
  | frame input index => simp [Compiler.writeSize, input]

mutual

theorem ExprCode.length {c : Compiler} {t : Tables} {declared : List String} {e : Expr} {code : List Op}
    (h : ExprCode c t declared e code) : code.length = c.exprSize declared e := by
  cases h with
  | literal index => rfl
  | name load => exact load.length
  | constantPath constant index =>
    simp only [Compiler.exprSize, constant]
    rfl
  | field computed value index =>
    simp only [Compiler.exprSize, computed, List.length_append, List.length_singleton, value.length]
  | call known few values index =>
    simp only [Compiler.exprSize, List.length_append, List.length_singleton, values.length]
  | unary value => simp only [Compiler.exprSize, List.length_append, List.length_singleton, value.length]
  | strict one two =>
    simp only [Compiler.exprSize, List.length_append, List.length_singleton, one.length, two.length]
  | and one two jump yesIndex noIndex =>
    simp only [Compiler.exprSize, List.length_append, List.length_cons, List.length_nil, one.length, two.length]
    omega
  | or one two jump yesIndex yesIndex' noIndex =>
    simp only [Compiler.exprSize, List.length_append, List.length_cons, List.length_nil, one.length, two.length]
    omega
  | conditional value one two jump jump' =>
    simp only [Compiler.exprSize, List.length_append, List.length_cons, value.length, one.length, two.length]
    omega
termination_by structural e

theorem ArgCode.length {c : Compiler} {t : Tables} {declared : List String} {es : List Expr} {code : List Op}
    (h : ArgCode c t declared es code) : code.length = c.argSize declared es := by
  cases h with
  | nil => rfl
  | cons value values => simp only [Compiler.argSize, List.length_append, value.length, values.length]
termination_by structural es

end

theorem InitialCode.length {value : Option Expr} (h : InitialCode c t declared value code) :
    code.length = c.initialSize declared value := by
  cases h with
  | value value => exact value.length
  | null index => rfl

mutual

theorem StmtCode.length {c : Compiler} {t : Tables} {declared : List String} {s : Stmt} {code : List Op}
    (h : StmtCode c t declared s code) : code.length = c.stmtSize declared s := by
  cases h with
  | expr value => simp only [Compiler.stmtSize, List.length_append, List.length_singleton, value.length]
  | set right store =>
    simp only [Compiler.stmtSize, List.length_append, List.length_singleton, right.length, store.length]
  | update load right store =>
    simp only [Compiler.stmtSize, List.length_append, List.length_cons, List.length_nil, load.length, right.length,
      store.length]
    omega
  | declare right checked index =>
    simp only [Compiler.stmtSize, List.length_append, List.length_singleton, right.length]
  | branch value one jump =>
    simp only [Compiler.stmtSize, List.length_append, List.length_cons, value.length, one.length]
    omega
  | branchElse value one two jump jump' =>
    simp only [Compiler.stmtSize, List.length_append, List.length_cons, value.length, one.length, two.length]
    omega
  | ret right => simp only [Compiler.stmtSize, List.length_append, List.length_singleton, right.length]
  | halt => rfl
termination_by structural s

theorem BlockCode.length {c : Compiler} {t : Tables} {declared : List String} {ss : List Stmt} {code : List Op}
    (h : BlockCode c t declared ss code) : code.length = c.blockSize declared ss := by
  cases h with
  | nil => rfl
  | cons one more => simp only [Compiler.blockSize, List.length_append, one.length, more.length]
termination_by structural ss

end

end

mutual

inductive Inner (c : Compiler) : List String → Stmt → Nat → Prop
  | yes {declared : List String} {condition : Expr} {yes : List Stmt} {no : Option (List Stmt)} {n : Nat}
    (inner : Boundary c declared yes n) :
    Inner c declared (.branch condition yes no) (c.exprSize declared condition + 1 + n)
  | no {declared : List String} {condition : Expr} {yes no : List Stmt} {n : Nat}
    (inner : Boundary c (declaringAll declared yes) no n) :
    Inner c declared (.branch condition yes (some no))
      (c.exprSize declared condition + 1 + c.blockSize declared yes + 1 + n)

inductive Boundary (c : Compiler) : List String → List Stmt → Nat → Prop
  | start {declared : List String} {ss : List Stmt} : Boundary c declared ss 0
  | inside {declared : List String} {s : Stmt} {rest : List Stmt} {n : Nat} (inner : Inner c declared s n) :
    Boundary c declared (s :: rest) n
  | behind {declared : List String} {s : Stmt} {rest : List Stmt} {n : Nat}
    (more : Boundary c (s.declaring declared) rest n) :
    Boundary c declared (s :: rest) (c.stmtSize declared s + n)

end

theorem boundary_append_expr {c : Compiler} {declared : List String} {ss : List Stmt} {e : Expr} {n : Nat}
    (h : Boundary c declared (ss ++ [.expr e]) n) :
    Boundary c declared ss n ∨ n = c.blockSize declared (ss ++ [.expr e]) := by
  induction ss generalizing declared n with
  | nil =>
    cases h with
    | start => exact .inl .start
    | inside inner => cases inner
    | behind more =>
      cases more with
      | start => exact .inr rfl
  | cons s ss ih =>
    cases h with
    | start => exact .inl .start
    | inside inner => exact .inl (.inside inner)
    | behind more =>
      rcases ih more with hfront | rfl
      · exact .inl (.behind hfront)
      · exact .inr rfl

end FactFold.Script
