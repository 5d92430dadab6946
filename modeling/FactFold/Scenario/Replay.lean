import FactFold.Scenario.Basic
import FactFold.Value.Agreement

/-!
Runs the steps of a scenario on a group. A fact that is taken out of the group is undone by the `reverse`
unit; without one, the group is made anew from the facts that are left.
-/

namespace FactFold

structure StepOutcome where
  index : Nat
  action : Action
  vars : Entries String Value
  answer : Option Value
  recomputed : Bool

structure Report where
  name : String
  reversible : Bool
  steps : List StepOutcome

namespace StepOutcome

def expected? (s : StepOutcome) : Option Value :=
  match s.action with
  | .result expected => expected
  | _ => none

def matched? (s : StepOutcome) : Option Bool := do
  return (← s.answer).agrees (← s.expected?)

def missed (s : StepOutcome) : Bool :=
  s.matched? == some false

end StepOutcome

namespace Report

def mismatches (r : Report) : List StepOutcome :=
  r.steps.filter (·.missed)

def passed (r : Report) : Bool :=
  r.steps.all fun s => !s.missed

end Report

structure Replay where
  accumulator : Accumulator
  memory : Memory
  tuple : List Fact
  group : Group
  live : Entries String Fact
  next : UInt64

namespace Replay

def fresh (r : Replay) (v : Value) : Fact × Replay :=
  (⟨r.next, v⟩, { r with next := r.next + 1 })

def folded {α : Type} (r : Replay) (f : Accumulator.Folded α) : Except ScenarioError α × Replay :=
  (f.1.mapError .fold, { r with group := f.2 })

def reset (r : Replay) : Except ScenarioError Unit × Replay :=
  r.folded (r.accumulator.reset r.group r.tuple r.memory)

def fold (r : Replay) (fact : Fact) : Except ScenarioError Unit × Replay :=
  r.folded (r.accumulator.accumulate r.group r.tuple fact r.memory)

def foldAll (r : Replay) : List Fact → Except ScenarioError Unit × Replay
  | [] => (.ok (), r)
  | fact :: rest =>
    match r.fold fact with
    | (.ok (), r) => r.foldAll rest
    | failure => failure

def undo (r : Replay) (fact : Fact) : Except ScenarioError Bool × Replay :=
  if r.accumulator.isReversible then
    match r.folded (r.accumulator.reverseFold r.group fact) with
    | (result, r) => (result.map fun _ => false, r)
  else
    match r.reset with
    | (.ok (), r) =>
      match r.foldAll (r.live.map Prod.snd) with
      | (result, r) => (result.map fun _ => true, r)
    | (.error e, r) => (.error e, r)

def insert (r : Replay) (index : Nat) (key : String) (v : Value) : Except ScenarioError Unit × Replay :=
  if r.live.has key then (.error (.duplicateFact index key), r)
  else
    match r.fresh v with
    | (fact, r) =>
      match r.fold fact with
      -- the fact is live only if its fold works
      | (.ok (), r) => (.ok (), { r with live := r.live.put key fact })
      | failure => failure

/-- Takes a fact out of the group. It is not live any more even if undoing its fold fails. -/
def retract (r : Replay) (index : Nat) (key : String) : Except ScenarioError Bool × Replay :=
  match r.live.get? key with
  | none => (.error (.unknownFact index key), r)
  | some fact => undo { r with live := r.live.erase key } fact

def update (r : Replay) (index : Nat) (key : String) (v : Value) : Except ScenarioError Bool × Replay :=
  match r.live.get? key with
  | none => (.error (.unknownFact index key), r)
  | some old =>
    let new : Fact := { old with value := v }
    match undo { r with live := r.live.put key new } old with
    | (.ok false, r) =>
      match r.fold new with
      | (result, r) => (result.map fun _ => false, r)
    | done => done

def answer (r : Replay) : Except ScenarioError Value :=
  (r.accumulator.answer r.group r.tuple r.memory).mapError .fold

def outcome (r : Replay) (index : Nat) (action : Action) (answer : Option Value) (recomputed : Bool) :
    StepOutcome where
  index
  action
  vars := r.accumulator.init.others.zip r.group.vars
  answer
  recomputed

def step (r : Replay) (index : Nat) (action : Action) : Except ScenarioError StepOutcome × Replay :=
  match action with
  | .insert key v =>
    match r.insert index key v with
    | (result, r) => (result.map fun _ => r.outcome index action none false, r)
  | .retract key =>
    match r.retract index key with
    | (result, r) => (result.map (r.outcome index action none), r)
  | .update key v =>
    match r.update index key v with
    | (result, r) => (result.map (r.outcome index action none), r)
  | .result _ => (r.answer.map fun v => r.outcome index action (some v) false, r)

def steps (r : Replay) (index : Nat) : List Step → Except ScenarioError (List StepOutcome)
  | [] => .ok []
  | s :: rest => do
    let action ← s.action index
    match r.step index action with
    | (.error e, _) => .error e
    | (.ok outcome, r) => return outcome :: (← r.steps (index + 1) rest)

end Replay

namespace Scenario

def start (s : Scenario) (registry : Registry) : Except ScenarioError Replay := do
  let accumulator ← (s.accumulator.compile s.config registry).mapError .compile
  let r : Replay :=
    { accumulator
      memory := { globals := s.globals, package := s.package }
      tuple := s.tuple.zipIdx.map fun (v, id) => ⟨UInt64.ofNat id, v⟩
      group := accumulator.group
      live := []
      next := UInt64.ofNat s.tuple.length }
  match r.reset with
  | (.ok (), r) => return r
  | (.error e, _) => .error e

def run (s : Scenario) (registry : Registry) : Except ScenarioError Report := do
  let r ← s.start registry
  let steps ← r.steps 0 s.steps
  return ⟨s.name, r.accumulator.isReversible, steps⟩

end Scenario

end FactFold
