import FactFold.Plan.Basic

/-!
The input slots of a plan form six segments. The first holds the fact that is folded and is there in
some plans only; how long it is follows from the number of inputs. A plan is valid when its inputs name
the other five in order.
-/

namespace FactFold

inductive Segment where
  | fact
  | engine
  | globals
  | previous
  | locals
  | other
deriving DecidableEq

namespace Segment

def all : List Segment :=
  [fact, engine, globals, previous, locals, other]

end Segment

structure SlotLayout where
  fact : Nat
  engine : Nat
  globals : Nat
  previous : Nat
  locals : Nat
  other : Nat
deriving DecidableEq

namespace SlotLayout

def length (l : SlotLayout) : Segment → Nat
  | .fact => l.fact
  | .engine => l.engine
  | .globals => l.globals
  | .previous => l.previous
  | .locals => l.locals
  | .other => l.other

def start (l : SlotLayout) : Segment → Nat
  | .fact => 0
  | .engine => l.fact
  | .globals => l.fact + l.engine
  | .previous => l.fact + l.engine + l.globals
  | .locals => l.fact + l.engine + l.globals + l.previous
  | .other => l.fact + l.engine + l.globals + l.previous + l.locals

def stop (l : SlotLayout) (s : Segment) : Nat :=
  l.start s + l.length s

def size (l : SlotLayout) : Nat :=
  l.stop .other

def hasFact (l : SlotLayout) : Bool :=
  l.fact == 1

end SlotLayout

inductive PlanError where
  | typeCount (inputs types : Nat)
  | duplicateInput (name : String)
  | sharedBinding (id : UInt32) (identifier : String)
  | slotCount (inputs fixed : Nat)
  | slotName (slot : Nat) (expected found : String)
  | tooManyInputs (inputs : Nat)
deriving DecidableEq

def PlanError.message : PlanError → String
  | typeCount inputs types => toString inputs ++ " input identifiers but " ++ toString types ++ " input types"
  | duplicateInput name => "input identifier `" ++ name ++ "` is declared twice"
  | sharedBinding id identifier =>
    Binding.idText id ++ " (`" ++ identifier ++ "`) appears in both previous and local bindings"
  | slotCount inputs fixed =>
    toString inputs ++ " inputs cannot hold " ++ toString fixed
      ++ " engine/global/binding/other slots plus at most one fact slot"
  | slotName slot expected found =>
    "slot " ++ toString slot ++ " is `" ++ found ++ "` but the layout expects `" ++ expected ++ "`"
  | tooManyInputs inputs => toString inputs ++ " inputs exceed the slot index space"

def mismatch? (slot : Nat) : List String → List String → Option (Nat × String × String)
  | expected :: names, found :: inputs =>
    if found = expected then mismatch? (slot + 1) names inputs else some (slot, expected, found)
  | _, _ => none

def repeated? (seen : List String) : List String → Option String
  | [] => none
  | name :: rest => if seen.contains name then some name else repeated? (name :: seen) rest

namespace Plan

def layout (p : Plan) : Except PlanError SlotLayout :=
  let inputs := p.inputs.length
  let fixed := p.named.length
  if UInt16.size < inputs then .error (.tooManyInputs inputs)
  else if inputs < fixed ∨ fixed + 1 < inputs then .error (.slotCount inputs fixed)
  else
    match mismatch? (inputs - fixed) p.named (p.inputs.drop (inputs - fixed)) with
    | some (slot, expected, found) => .error (.slotName slot expected found)
    | none =>
      .ok {
        fact := inputs - fixed
        engine := p.engine.length
        globals := p.globals.length
        previous := p.previous.length
        locals := p.locals.length
        other := p.others.length }

def validate (p : Plan) : Except PlanError SlotLayout :=
  if p.inputs.length ≠ p.inputTypes.length then .error (.typeCount p.inputs.length p.inputTypes.length)
  else
    match repeated? [] p.inputs with
    | some name => .error (.duplicateInput name)
    | none =>
      match p.previous.find? fun b => p.locals.any (·.id == b.id) with
      | some b => .error (.sharedBinding b.id b.identifier)
      | none => p.layout

end Plan

end FactFold
