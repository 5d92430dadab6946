import FactFold.Accumulator.Basic
import FactFold.Json.Reader
import FactFold.Plan.Persisted
import FactFold.Text.Quoted

namespace FactFold.Accumulator

open Json

def toJson (a : Accumulator) : Json :=
  .object [("init", a.init.toJson), ("action", a.action.toJson), ("reverse", .ofOption Plan.toJson a.reverse),
    ("result", a.result.toJson)]

def ofJson (j : Json) : Reading Accumulator := do
  let parts ← Document.parts ["init", "action", "reverse", "result"] j
  return {
    init := ← required parts "init" Plan.ofJson
    action := ← required parts "action" Plan.ofJson
    reverse := ← optional parts "reverse" Plan.ofJson
    result := ← required parts "result" Plan.ofJson }

def persisted (a : Accumulator) : String :=
  a.toJson.compact

def ofPersisted? (s : String) : Option Accumulator :=
  (Json.parse? nestingLimit s).bind (Json.read? ofJson)

def toText (a : Accumulator) : String :=
  let reverse := match a.reverse with
    | some p => "Some(" ++ Text.quoted p.name ++ ")"
    | none => "None"
  "Accumulator \x7b init: " ++ Text.quoted a.init.name ++ ", action: " ++ Text.quoted a.action.name
    ++ ", reverse: " ++ reverse ++ ", result: " ++ Text.quoted a.result.name
    ++ ", compiled: " ++ (if a.isCompiled then "true" else "false") ++ " \x7d"

end FactFold.Accumulator
