import FactFold.Clause
import FactFold.Text.Blank

namespace FactFold

inductive Action where
  | insert (key : String) (v : Value)
  | retract (key : String)
  | update (key : String) (v : Value)
  | result (expected : Option Value)

namespace Action

def name : Action → String
  | insert _ _ => "insert"
  | retract _ => "retract"
  | update _ _ => "update"
  | result _ => "result"

def key? : Action → Option String
  | insert key _ => some key
  | retract key => some key
  | update key _ => some key
  | result _ => none

end Action

structure Step where
  insert : Option (String × Value) := none
  retract : Option String := none
  update : Option (String × Value) := none
  result : Option (Option Value) := none

inductive ScenarioError where
  | apiVersion (found : String)
  | kind (found : String)
  | missing (part : String)
  | noAction (step : Nat)
  | manyActions (step : Nat)
  | unknownFact (step : Nat) (key : String)
  | duplicateFact (step : Nat) (key : String)
  | compile (e : CompileError)
  | fold (e : FoldError)

structure Scenario where
  apiVersion : String := "tally/v1"
  kind : String := "Accumulate"
  name : String := ""
  title : Option String := none
  description : Option String := none
  config : Config := {}
  globals : Entries String Value := []
  package : Option Package := none
  tuple : List Value := []
  clause : Clause
  steps : List Step := []

def ScenarioError.message : ScenarioError → String
  | apiVersion found => "invalid apiVersion: expected 'tally/v1', got '" ++ found ++ "'"
  | kind found => "invalid kind: expected 'Accumulate', got '" ++ found ++ "'"
  | missing part => "missing required field: " ++ part
  | noAction step => "step " ++ toString step ++ ": no action (expected insert, retract, update or result)"
  | manyActions step => "step " ++ toString step ++ ": more than one action"
  | unknownFact step key => "step " ++ toString step ++ ": no fact with key '" ++ key ++ "'"
  | duplicateFact step key => "step " ++ toString step ++ ": fact '" ++ key ++ "' is already inserted"
  | compile e => e.message
  | fold e => e.message

def Step.actions (s : Step) : List Action :=
  (s.insert.map fun (key, v) => Action.insert key v).toList
    ++ (s.retract.map .retract).toList
    ++ (s.update.map fun (key, v) => Action.update key v).toList
    ++ (s.result.map .result).toList

def Step.action (s : Step) (index : Nat) : Except ScenarioError Action :=
  match s.actions with
  | [a] => .ok a
  | [] => .error (.noAction index)
  | _ => .error (.manyActions index)

namespace Scenario

def firstBadStep (index : Nat) : List Step → Except ScenarioError Unit
  | [] => .ok ()
  | s :: rest =>
    match s.action index with
    | .ok _ => firstBadStep (index + 1) rest
    | .error e => .error e

def check (s : Scenario) : Except ScenarioError Unit := do
  unless s.apiVersion = "tally/v1" do throw (.apiVersion s.apiVersion)
  unless s.kind = "Accumulate" do throw (.kind s.kind)
  if s.name.isEmpty then throw (.missing "metadata.name")
  if s.clause.init.toList.all Text.isBlank then throw (.missing "accumulate.init")
  if s.clause.action.toList.all Text.isBlank then throw (.missing "accumulate.action")
  if s.clause.result.toList.all Text.isBlank then throw (.missing "accumulate.result")
  firstBadStep 0 s.steps

def accumulator (s : Scenario) : Accumulator :=
  s.clause.accumulator s.config s.name

end Scenario

end FactFold
