import FactFold.Scenario.Reading
import FactFold.Scenario.Report
import FactFold.Yaml.Document

namespace FactFold

inductive LoadError where
  | malformed
  | invalid (e : ScenarioError)

def Scenario.load (s : String) : Except LoadError Scenario :=
  match Yaml.read? Scenario.read s with
  | none => .error .malformed
  | some scenario =>
    match scenario.check with
    | .ok _ => .ok scenario
    | .error e => .error (.invalid e)

def replayText (registry : Registry) (asJson : Bool) (s : String) : String × Bool :=
  match Scenario.load s with
  | .error _ => ("", false)
  | .ok scenario =>
    match scenario.run registry with
    | .error _ => ("", false)
    | .ok report => (report.print asJson, report.passed)

def replayFiles (registry : Registry) (asJson : Bool) (files : List (Option String)) : String × UInt8 :=
  let replays := files.map fun file =>
    match file with
    | some s => replayText registry asJson s
    | none => ("", false)
  let code := if files.isEmpty then 2 else if replays.all Prod.snd then 0 else 1
  (String.join (replays.map Prod.fst), code)

structure Arguments where
  files : List String := []
  asJson : Bool := false

def Arguments.parse? (found : Arguments) : List String → Option Arguments
  | [] => some found
  | "--" :: rest => some { found with files := found.files ++ rest }
  | "--json" :: rest => if found.asJson then none else parse? { found with asJson := true } rest
  | arg :: rest =>
    if arg.startsWith "-" && arg ≠ "-" then none else parse? { found with files := found.files ++ [arg] } rest

end FactFold
