import FactFold.Script.Syntax

namespace FactFold.Script

mutual

def Expr.bare : Expr → Expr
  | .literal l _ => .literal l ⟨0, 0⟩
  | .name n _ => .name n ⟨0, 0⟩
  | .field object name _ => .field object.bare name ⟨0, 0⟩
  | .call function args _ => .call function (bareArgs args) ⟨0, 0⟩
  | .unary op operand _ => .unary op operand.bare ⟨0, 0⟩
  | .binary op left right _ => .binary op left.bare right.bare ⟨0, 0⟩
  | .conditional condition yes no _ => .conditional condition.bare yes.bare no.bare ⟨0, 0⟩
termination_by structural e => e

def bareArgs : List Expr → List Expr
  | [] => []
  | e :: rest => e.bare :: bareArgs rest
termination_by structural es => es

end

theorem Expr.root?_bare (e : Expr) : e.bare.root? = e.root? := by
  cases e with
  | field object name span => exact object.root?_bare
  | _ => rfl
termination_by structural e

theorem Expr.path?_bare (e : Expr) : e.bare.path? = e.path? := by
  cases e with
  | field object name span => exact congrArg (Option.map (· ++ "." ++ name)) object.path?_bare
  | _ => rfl
termination_by structural e

theorem Expr.bare_withSpan (e : Expr) (span : Span) : (e.withSpan span).bare = e.bare := by
  cases e <;> rfl

mutual

def Stmt.bare : Stmt → Stmt
  | .expr e => .expr e.bare
  | .assign target op value _ => .assign target op value.bare ⟨0, 0⟩
  | .declare name type value _ => .declare name type (value.map Expr.bare) ⟨0, 0⟩
  | .branch condition yes none => .branch condition.bare (bareBlock yes) none
  | .branch condition yes (some no) => .branch condition.bare (bareBlock yes) (some (bareBlock no))
  | .ret value => .ret (value.map Expr.bare)
termination_by structural s => s

def bareBlock : List Stmt → List Stmt
  | [] => []
  | s :: rest => s.bare :: bareBlock rest
termination_by structural ss => ss

end

end FactFold.Script
