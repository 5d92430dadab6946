import FactFold.Proofs.Results
import FactFold.Proofs.Script.Evaluation

/-!
The paths through a script branch at each `if`, whatever its condition says, and end at each `return`. The
names that are surely written at a place are those that every path to the place declares or assigns.
-/

namespace FactFold.Script

mutual

def Expr.names : Expr → List String
  | .literal _ _ => []
  | .name n _ => [n]
  | .field object _ _ => object.names
  | .call _ args _ => argNames args
  | .unary _ operand _ => operand.names
  | .binary _ left right _ => left.names ++ right.names
  | .conditional condition yes no _ => condition.names ++ (yes.names ++ no.names)
termination_by structural e => e

def argNames : List Expr → List String
  | [] => []
  | e :: rest => e.names ++ argNames rest
termination_by structural es => es

end

def initialNames : Option Expr → List String
  | some value => value.names
  | none => []

def meet : Option (List String) → Option (List String) → Option (List String)
  | none, sure => sure
  | sure, none => sure
  | some names, some names' => some (names.filter (· ∈ names'))

mutual

def Stmt.writing (sure : Option (List String)) : Stmt → Option (List String)
  | .expr _ => sure
  | .assign target _ _ _ => sure.map (target :: ·)
  | .declare name _ _ _ => sure.map (name :: ·)
  | .branch _ yes none => meet (writingAll sure yes) sure
  | .branch _ yes (some no) => meet (writingAll sure yes) (writingAll sure no)
  | .ret _ => none
termination_by structural s => s

def writingAll (sure : Option (List String)) : List Stmt → Option (List String)
  | [] => sure
  | s :: rest => writingAll (s.writing sure) rest
termination_by structural ss => ss

end

def missed (declared : List String) (sure : Option (List String)) (names : List String) : List String :=
  match sure with
  | none => []
  | some written => names.filter fun n => n ∈ declared ∧ n ∉ written

mutual

def Stmt.exposed (declared : List String) (sure : Option (List String)) : Stmt → List String
  | .expr e => missed declared sure e.names
  | .assign _ .set value _ => missed declared sure value.names
  | .assign target (.update _) value _ => missed declared sure (target :: value.names)
  | .declare _ _ value _ => missed declared sure (initialNames value)
  | .branch condition yes none => missed declared sure condition.names ++ exposedAll declared sure yes
  | .branch condition yes (some no) =>
    missed declared sure condition.names ++
      (exposedAll declared sure yes ++ exposedAll (declaringAll declared yes) sure no)
  | .ret (some value) => missed declared sure value.names
  | .ret none => []
termination_by structural s => s

def exposedAll (declared : List String) (sure : Option (List String)) : List Stmt → List String
  | [] => []
  | s :: rest => s.exposed declared sure ++ exposedAll (s.declaring declared) (s.writing sure) rest
termination_by structural ss => ss

end

/-- The names that a script reads where they are declared before in the text, but not written on every path
from its start. -/
def exposedNames (ss : List Stmt) : List String :=
  exposedAll [] (some []) ss

variable {declared : List String} {sure : Option (List String)}

theorem missed_append (names names' : List String) :
    missed declared sure (names ++ names') = missed declared sure names ++ missed declared sure names' := by
  cases sure with
  | none => rfl
  | some written => exact List.filter_append ..

theorem exposedAll_append (ss rest : List Stmt) :
    exposedAll declared sure (ss ++ rest) =
      exposedAll declared sure ss ++ exposedAll (declaringAll declared ss) (writingAll sure ss) rest := by
  induction ss generalizing declared sure with
  | nil => rfl
  | cons s ss ih => simp only [List.cons_append, exposedAll, declaringAll, writingAll, ih, List.append_assoc]

end FactFold.Script
