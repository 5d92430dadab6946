import FactFold.Memory
import FactFold.Script.Machine
import FactFold.Unit

/-!
The frame that a compiled unit runs on. Inputs live in slots; all other names are looked up in the
variables of the script and then in the package.
-/

namespace FactFold

open Script (Frame Outcome)

inductive ContextCause where
  | missingTupleFact (identifier : String) (offset length : Nat)
  | missingField (identifier field : String)
  | missingFact
  | otherCount (expected found : Nat)
deriving DecidableEq

structure ContextError where
  unit : String
  cause : ContextCause
deriving DecidableEq

def ContextCause.message : ContextCause → String
  | missingTupleFact identifier offset length =>
    "binding `" ++ identifier ++ "` reads tuple offset " ++ toString offset ++ ", but the match group has "
      ++ toString length ++ " facts"
  | missingField identifier field => "binding `" ++ identifier ++ "` reads missing field `" ++ field ++ "`"
  | missingFact => "layout has a fact slot but no fact was supplied"
  | otherCount expected found => "expected " ++ toString expected ++ " other values, got " ++ toString found

def ContextError.message (e : ContextError) : String :=
  e.unit ++ ": " ++ e.cause.message

structure Context where
  unit : String
  inputs : Entries String ValueType
  slots : List Value
  layout : SlotLayout
  scope : ScopeChain

def Binding.read (b : Binding) (v : Value) : Except ContextCause Value :=
  match b.extractor.extract? v, b.extractor with
  | some w, _ => .ok w
  | none, .field name => .error (.missingField b.identifier name)
  | none, .whole => .error (.missingField b.identifier "")

def Binding.readTuple (b : Binding) (tuple : List Fact) : Except ContextCause Value :=
  match tuple[b.offset.toNat]? with
  | some fact => b.read fact.value
  | none => .error (.missingTupleFact b.identifier b.offset.toNat tuple.length)

def Binding.readFact (b : Binding) (fact : Option Fact) : Except ContextCause Value :=
  match fact with
  | some fact => b.read fact.value
  | none => .ok .null

namespace CompiledUnit

def factValues (u : CompiledUnit) (fact : Option Fact) : Except ContextCause (List Value) :=
  if u.layout.hasFact then
    match fact with
    | some fact => .ok [fact.value]
    | none => .error .missingFact
  else .ok []

def slotValues (u : CompiledUnit) (fact : Option Fact) (tuple : List Fact) (memory : Memory)
    (others : List Value) : Except ContextCause (List Value) := do
  let folded ← u.factValues fact
  let handles := u.plan.engine.map memory.handle
  let globals := u.plan.globals.map memory.global
  let previous ← u.plan.previous.mapM (·.readTuple tuple)
  let locals ← u.plan.locals.mapM (·.readFact fact)
  if others.length = u.layout.other then
    return folded ++ handles ++ globals ++ previous ++ locals ++ others
  else .error (.otherCount u.layout.other others.length)

def context (u : CompiledUnit) (fact : Option Fact) (tuple : List Fact) (memory : Memory)
    (others : List Value) : Except ContextError Context :=
  match u.slotValues fact tuple memory others with
  | .ok slots =>
    .ok { unit := u.name, inputs := u.inputs, slots, layout := u.layout, scope := { package := memory.package } }
  | .error cause => .error ⟨u.name, cause⟩

end CompiledUnit

namespace Context

def segment (c : Context) (s : Segment) : List Value :=
  (c.slots.drop (c.layout.start s)).take (c.layout.length s)

def others (c : Context) : List Value :=
  c.segment .other

def helpers (c : Context) : Scope :=
  c.scope.head

def setOthers (c : Context) (values : List Value) : Except ContextError Context :=
  if values.length = c.layout.other then
    let start := c.layout.start .other
    .ok { c with slots := c.slots.take start ++ values ++ c.slots.drop (start + values.length) }
  else .error ⟨c.unit, .otherCount c.layout.other values.length⟩

def slot? (c : Context) (name : String) : Option Nat :=
  c.inputs.position? name

def resolve (c : Context) (name : String) : Except RunError Value :=
  match (c.slot? name).bind (c.slots[·]?) <|> c.scope.resolve? name with
  | some v => .ok v
  | none => .error (.unresolved name)

def readSlot (c : Context) (slot : UInt16) : Except RunError Value :=
  match c.slots[slot.toNat]? with
  | some v => .ok v
  | none => .error (.invalidSlot slot)

def writeSlot (c : Context) (slot : Nat) (v : Value) : Except RunError Context :=
  if slot < c.slots.length then .ok { c with slots := c.slots.set slot v }
  else .error (.invalidSlot (if slot < UInt16.size then UInt16.ofNat slot else UInt16.ofNat (UInt16.size - 1)))

def writeName (c : Context) (name : String) (v : Value) : Except RunError Context :=
  match c.slot? name with
  | some slot => c.writeSlot slot v
  | none =>
    match c.scope.assign name v with
    | .ok scope => .ok { c with scope }
    | .error v => .ok { c with scope := c.scope.define name v }

/-- Declares a variable. The name of an input stands for its slot, which must not have a type. -/
def declare (c : Context) (name : String) (v : Value) : Except RunError Context :=
  match c.slot? name, c.inputs.get? name with
  | some slot, some type => if type.isConstrained then .error (.redeclared name) else c.writeSlot slot v
  | _, _ => .ok { c with scope := c.scope.define name v }

def after (c : Context) (write : Except RunError Context) : Except RunError Unit × Context :=
  match write with
  | .ok c => (.ok (), c)
  | .error e => (.error e, c)

instance : Frame Context where
  loadSlot := readSlot
  storeSlot c slot v := c.after (c.writeSlot slot.toNat v)
  loadName := resolve
  storeName c name v := c.after (c.writeName name v)
  declare c name v _ := c.after (c.declare name v)

end Context

def CompiledUnit.run (u : CompiledUnit) (c : Context) : Outcome Context :=
  u.program.run u.maxStackDepth c

end FactFold
