import FactFold.Scenario.Replay
import FactFold.Value.Json

namespace FactFold

def padded (n : Nat) : String :=
  String.ofList ((toString n).toList.rightpad 3 ' ')

namespace StepOutcome

def actionLine (s : StepOutcome) : String :=
  let key := match s.action.key? with
    | some key => " " ++ key
    | none => ""
  let vars := " ".intercalate (s.vars.map fun (name, v) => name ++ "=" ++ v.persisted)
  "  #" ++ padded s.index ++ " " ++ s.action.name ++ key ++ ": " ++ vars
    ++ (if s.recomputed then " [recomputed]" else "")

def answerLine (s : StepOutcome) (answer : Value) : String :=
  "       result " ++ answer.persisted ++
    match s.expected? with
    | none => ""
    | some expected => if s.missed then " != expected " ++ expected.persisted ++ "  FAIL" else "  ok"

def lines (s : StepOutcome) : List String :=
  s.actionLine :: (s.answer.map s.answerLine).toList

def toJson (s : StepOutcome) : Json :=
  .object <|
    [("index", .nat s.index), ("action", .text s.action.name)]
      ++ (s.action.key?.map fun key => ("key", Json.text key)).toList
      ++ [("variables", .object (s.vars.map fun (name, v) => (name, v.toJson)))]
      ++ (s.answer.map fun v => ("result", v.toJson)).toList
      ++ (s.expected?.map fun v => ("expected", v.toJson)).toList
      ++ (s.matched?.map fun b => ("matched", Json.bool b)).toList
      ++ [("recomputed", .bool s.recomputed)]

end StepOutcome

namespace Report

def lines (r : Report) : List String :=
  [r.name ++ " (" ++ (if r.reversible then "reversible" else "recomputing") ++ ")"]
    ++ r.steps.flatMap StepOutcome.lines
    ++ [(if r.passed then "PASS" else "FAIL") ++ ": " ++ toString r.steps.length ++ " steps, "
      ++ toString r.mismatches.length ++ " mismatches"]

def toJson (r : Report) : Json :=
  .object [("name", .text r.name), ("reversible", .bool r.reversible),
    ("steps", .array (r.steps.map StepOutcome.toJson))]

def print (r : Report) (asJson : Bool) : String :=
  if asJson then r.toJson.indented 0 ++ "\n" else String.join (r.lines.map (· ++ "\n"))

end Report

end FactFold
