import FactFold.RunError

namespace FactFold.Script

/-- Instructions take their operands off the stack, the last one first. A store leaves the value where it is, and
a jump skips as many instructions as it says. -/
inductive Op where
  | literal (index : UInt16)
  | loadSlot (slot : UInt16)
  | storeSlot (slot : UInt16)
  | loadName (index : UInt16)
  | storeName (index : UInt16)
  | declare (name : UInt16) (type : Option UInt16)
  | checkType (index : UInt16)
  | loadField (index : UInt16)
  | strict (op : StrictOp)
  | unary (op : UnaryOp)
  | jumpIfFalse (distance : UInt16)
  | jump (distance : UInt16)
  | ret
  | halt
  | call (function : UInt16) (arity : UInt8)
  | discard
deriving DecidableEq

inductive CodeLimit where
  | table (kind : TableKind)
  | arguments
  | jump
deriving DecidableEq

def CodeLimit.toText : CodeLimit → String
  | table kind => kind.toText ++ " table"
  | arguments => "argument list"
  | jump => "jump distance"

def CodeLimit.message (limit : CodeLimit) : String :=
  "script too large: " ++ limit.toText ++ " exceeds its 16-bit index space"

def index16 (limit : CodeLimit) (n : Nat) : Except CodeLimit UInt16 :=
  if n < UInt16.size then .ok (UInt16.ofNat n) else .error limit

def intern {α : Type} [BEq α] (kind : TableKind) (table : List α) (item : α) :
    Except CodeLimit (UInt16 × List α) :=
  match table.findIdx? (· == item) with
  | some i => (index16 (.table kind) i).map fun i => (i, table)
  | none => (index16 (.table kind) table.length).map fun i => (i, table ++ [item])

structure Tables where
  names : List String := []
  fields : List String := []
  literals : List Value := []
  types : List ValueType := []
  functions : List String := []

namespace Tables

def addName (t : Tables) (name : String) : Except CodeLimit (UInt16 × Tables) :=
  (intern .name t.names name).map fun (i, names) => (i, { t with names })

def addField (t : Tables) (field : String) : Except CodeLimit (UInt16 × Tables) :=
  (intern .field t.fields field).map fun (i, fields) => (i, { t with fields })

def addLiteral (t : Tables) (v : Value) : Except CodeLimit (UInt16 × Tables) :=
  (intern .literal t.literals v).map fun (i, literals) => (i, { t with literals })

def addType (t : Tables) (type : ValueType) : Except CodeLimit (UInt16 × Tables) :=
  (intern .type t.types type).map fun (i, types) => (i, { t with types })

def addFunction (t : Tables) (function : String) : Except CodeLimit (UInt16 × Tables) :=
  (intern .function t.functions function).map fun (i, functions) => (i, { t with functions })

end Tables

structure Chunk extends Tables where
  ops : List Op := []
  strict : Bool := false

def Chunk.land (c : Chunk) (place : Nat) : Except CodeLimit Chunk :=
  (index16 .jump (c.ops.length - place - 1)).map fun distance =>
    let ops := c.ops.modify place fun op =>
      match op with
      | .jumpIfFalse _ => .jumpIfFalse distance
      | .jump _ => .jump distance
      | op => op
    { c with ops }

abbrev Native :=
  List Value → Except String Value

structure Program where
  chunk : Chunk
  natives : List Native

end FactFold.Script
