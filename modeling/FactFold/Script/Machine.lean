import FactFold.Script.Code
import FactFold.Value.Arithmetic

/-!
Code runs on a frame, which holds every variable; the machine has only the operands, with the top of
the stack as the head of the list. Jumps go forward, so that a run is one pass over the code.
-/

namespace FactFold.Script

/-- Where the variables of a script live. A write that fails may have changed the frame too. -/
class Frame (σ : Type) where
  loadSlot : σ → UInt16 → Except RunError Value
  storeSlot : σ → UInt16 → Value → Except RunError Unit × σ
  loadName : σ → String → Except RunError Value
  storeName : σ → String → Value → Except RunError Unit × σ
  declare : σ → String → Value → Option ValueType → Except RunError Unit × σ

structure Outcome (σ : Type) where
  result : Except RunError (Option Value)
  frame : σ

inductive Flow (σ : Type) where
  | go (skip : Nat) (stack : List Value) (frame : σ)
  | stop (outcome : Outcome σ)

def defaultStackLimit : Nat := 1024

structure Machine where
  tables : Tables
  natives : List Native
  limit : Nat

def entry {α : Type} (kind : TableKind) (table : List α) (index : UInt16) : Except RunError α :=
  match table[index.toNat]? with
  | some a => .ok a
  | none => .error (.invalidOperand kind index.toNat)

def fitted (operation : Operation) (type : ValueType) (v : Value) : Except RunError Value :=
  if type.accepts v then .ok (type.coerce v) else .error (.mismatch operation (.type type) v.kind)

def push (limit : Nat) (v : Value) (stack : List Value) : Except RunError (List Value) :=
  if limit ≤ stack.length then .error (.stackOverflow limit) else .ok (v :: stack)

def pop (place : Nat) (stack : List Value) : Except RunError (Value × List Value) :=
  match stack with
  | [] => .error (.stackUnderflow place)
  | v :: stack => .ok (v, stack)

def popMany (n place : Nat) (stack : List Value) : Except RunError (List Value × List Value) :=
  if stack.length < n then .error (.stackUnderflow place)
  else .ok ((stack.take n).reverse, stack.drop n)

def Machine.call (m : Machine) (function : UInt16) (arity : UInt8) (place : Nat) (stack : List Value) :
    Except RunError (List Value) := do
  let name ← entry .function m.tables.functions function
  let native ← entry .function m.natives function
  let (args, stack) ← popMany arity.toNat place stack
  match native args with
  | .ok v => push m.limit v stack
  | .error message => .error (.functionFailed name message)

def Machine.declaration (m : Machine) (name : UInt16) (type : Option UInt16) (place : Nat)
    (stack : List Value) : Except RunError ((String × Value × Option ValueType) × List Value) := do
  let name ← entry .name m.tables.names name
  let (v, stack) ← pop place stack
  match type with
  | none => return ((name, v, none), stack)
  | some type =>
    let type ← entry .type m.tables.types type
    let v ← fitted (.declaration name) type v
    return ((name, v, some type), stack)

section

variable {σ : Type}

def Flow.onStack (frame : σ) (stack : Except RunError (List Value)) : Flow σ :=
  match stack with
  | .ok stack => .go 0 stack frame
  | .error e => .stop ⟨.error e, frame⟩

def Flow.onWrite (stack : List Value) (write : Except RunError Unit × σ) : Flow σ :=
  match write with
  | (.ok (), frame) => .go 0 stack frame
  | (.error e, frame) => .stop ⟨.error e, frame⟩

variable [Frame σ]

def Op.step (m : Machine) (place : Nat) (op : Op) (stack : List Value) (frame : σ) : Flow σ :=
  match op with
  | literal i => .onStack frame do push m.limit (← entry .literal m.tables.literals i) stack
  | loadSlot s => .onStack frame do push m.limit (← Frame.loadSlot frame s) stack
  | storeSlot s =>
    match pop place stack with
    | .ok (v, _) => .onWrite stack (Frame.storeSlot frame s v)
    | .error e => .stop ⟨.error e, frame⟩
  | loadName i => .onStack frame do
    let name ← entry .name m.tables.names i
    push m.limit (← Frame.loadName frame name) stack
  | storeName i =>
    match entry .name m.tables.names i, pop place stack with
    | .ok name, .ok (v, _) => .onWrite stack (Frame.storeName frame name v)
    | .error e, _ => .stop ⟨.error e, frame⟩
    | _, .error e => .stop ⟨.error e, frame⟩
  | declare i t =>
    match m.declaration i t place stack with
    | .ok ((name, v, type), stack) => .onWrite stack (Frame.declare frame name v type)
    | .error e => .stop ⟨.error e, frame⟩
  | checkType i => .onStack frame do
    let type ← entry .type m.tables.types i
    let (v, stack) ← pop place stack
    return (← fitted .assignment type v) :: stack
  | loadField i => .onStack frame do
    let field ← entry .field m.tables.fields i
    let (v, stack) ← pop place stack
    match v.field? field with
    | some w => push m.limit w stack
    | none => .error (.noField field v.kind)
  | strict op => .onStack frame do
    let (b, stack) ← pop place stack
    let (a, stack) ← pop place stack
    push m.limit (← Value.strict op a b) stack
  | unary op => .onStack frame do
    let (a, stack) ← pop place stack
    push m.limit (← Value.unary op a) stack
  | jumpIfFalse distance =>
    match pop place stack with
    | .error e => .stop ⟨.error e, frame⟩
    | .ok (v, stack) =>
      match v.condition with
      | .ok b => .go (if b then 0 else distance.toNat) stack frame
      | .error e => .stop ⟨.error e, frame⟩
  | jump distance => .go distance.toNat stack frame
  | ret =>
    match pop place stack with
    | .ok (v, _) => .stop ⟨.ok (some v), frame⟩
    | .error e => .stop ⟨.error e, frame⟩
  | halt => .stop ⟨.ok none, frame⟩
  | call function arity => .onStack frame (m.call function arity place stack)
  | discard => .onStack frame ((pop place stack).map Prod.snd)

/-- Runs the instructions from number `place` on, of which the first `skip` are passed over. -/
def Machine.runFrom (m : Machine) : List Op → Nat → Nat → List Value → σ → Outcome σ
  | [], _, _, _, frame => ⟨.ok none, frame⟩
  | _ :: ops, place, skip + 1, stack, frame => m.runFrom ops (place + 1) skip stack frame
  | op :: ops, place, 0, stack, frame =>
    match op.step m place stack frame with
    | .go skip stack frame => m.runFrom ops (place + 1) skip stack frame
    | .stop outcome => outcome

def Program.run (p : Program) (limit : Nat) (frame : σ) : Outcome σ :=
  (Machine.mk p.chunk.toTables p.natives limit).runFrom p.chunk.ops 0 0 [] frame

end

end FactFold.Script
