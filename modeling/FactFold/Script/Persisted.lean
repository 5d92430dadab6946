import FactFold.Json.Document
import FactFold.Json.Reader
import FactFold.Script.Code

namespace FactFold

open Json

def ValueType.toJson : ValueType → Json
  | any => .text "Any"
  | boolean => .text "Boolean"
  | integer => .text "Integer"
  | float => .text "Float"
  | number => .text "Number"
  | text => .text "Text"
  | list => .text "List"
  | record name => .object [("Record", .text name)]

def ValueType.ofJson? (j : Json) : Option ValueType :=
  match j.asChoice? with
  | some ("Any", .null) => some any
  | some ("Boolean", .null) => some boolean
  | some ("Integer", .null) => some integer
  | some ("Float", .null) => some float
  | some ("Number", .null) => some number
  | some ("Text", .null) => some text
  | some ("List", .null) => some list
  | some ("Record", .text name) => some (record name)
  | _ => none

namespace Script

def count16 (j : Json) : Reading UInt16 := do
  let n ← Document.count j
  if n.toNat < UInt16.size then return n.toUInt16 else failure

def count8 (j : Json) : Reading UInt8 := do
  let n ← Document.count j
  if n.toNat < UInt8.size then return n.toUInt8 else failure

def plainOps : List (String × Op) :=
  [("Add", .strict (.arith .add)), ("Sub", .strict (.arith .sub)), ("Mul", .strict (.arith .mul)),
    ("Div", .strict (.arith .div)), ("Rem", .strict (.arith .rem)), ("Neg", .unary .neg),
    ("Eq", .strict .eq), ("Ne", .strict .ne), ("Lt", .strict (.order .lt)), ("Le", .strict (.order .le)),
    ("Gt", .strict (.order .gt)), ("Ge", .strict (.order .ge)), ("Not", .unary .not),
    ("Return", .ret), ("Halt", .halt), ("Pop", .discard)]

def indexedOps : List (String × (UInt16 → Op)) :=
  [("Literal", .literal), ("LoadSlot", .loadSlot), ("StoreSlot", .storeSlot), ("LoadName", .loadName),
    ("StoreName", .storeName), ("CheckType", .checkType), ("LoadField", .loadField),
    ("JumpIfFalse", .jumpIfFalse), ("Jump", .jump)]

namespace Op

def toChoice : Op → String × Option Json
  | literal i => ("Literal", some (.nat i.toNat))
  | loadSlot s => ("LoadSlot", some (.nat s.toNat))
  | storeSlot s => ("StoreSlot", some (.nat s.toNat))
  | loadName i => ("LoadName", some (.nat i.toNat))
  | storeName i => ("StoreName", some (.nat i.toNat))
  | declare i t => ("Declare", some (.object [("name", .nat i.toNat), ("ty", .ofOption (.nat ·.toNat) t)]))
  | checkType i => ("CheckType", some (.nat i.toNat))
  | loadField i => ("LoadField", some (.nat i.toNat))
  | strict (.arith .add) => ("Add", none)
  | strict (.arith .sub) => ("Sub", none)
  | strict (.arith .mul) => ("Mul", none)
  | strict (.arith .div) => ("Div", none)
  | strict (.arith .rem) => ("Rem", none)
  | unary .neg => ("Neg", none)
  | strict .eq => ("Eq", none)
  | strict .ne => ("Ne", none)
  | strict (.order .lt) => ("Lt", none)
  | strict (.order .le) => ("Le", none)
  | strict (.order .gt) => ("Gt", none)
  | strict (.order .ge) => ("Ge", none)
  | unary .not => ("Not", none)
  | jumpIfFalse n => ("JumpIfFalse", some (.nat n.toNat))
  | jump n => ("Jump", some (.nat n.toNat))
  | ret => ("Return", none)
  | halt => ("Halt", none)
  | call f n => ("Call", some (.object [("function", .nat f.toNat), ("arity", .nat n.toNat)]))
  | discard => ("Pop", none)

def toJson (op : Op) : Json :=
  match op.toChoice with
  | (name, none) => .text name
  | (name, some part) => .object [(name, part)]

def ofJson (j : Json) : Reading Op := do
  let (name, part) ← j.asChoice?
  match name with
  | "Declare" =>
    let parts ← part.asNamedParts? ["name", "ty"]
    return .declare (← required parts "name" count16) (← optional parts "ty" count16)
  | "Call" =>
    let parts ← part.asNamedParts? ["function", "arity"]
    return .call (← required parts "function" count16) (← required parts "arity" count8)
  | name =>
    match plainOps.lookup name, indexedOps.lookup name with
    | some op, _ => if part matches .null then return op else failure
    | none, some op => return op (← count16 part)
    | none, none => failure

end Op

def Chunk.toJson (literal : Value → Json) (c : Chunk) : Json :=
  .object [("ops", .array (c.ops.map Op.toJson)), ("names", .texts c.names), ("fields", .texts c.fields),
    ("literals", .array (c.literals.map literal)), ("types", .array (c.types.map ValueType.toJson)),
    ("functions", .texts c.functions), ("strict", .bool c.strict)]

def Chunk.ofJson (j : Json) : Reading Chunk := do
  let parts ← Document.parts ["ops", "names", "fields", "literals", "types", "functions", "strict"] j
  return {
    ops := ← required parts "ops" (listOf Op.ofJson)
    names := ← required parts "names" (listOf Document.text)
    fields := ← required parts "fields" (listOf Document.text)
    literals := ← required parts "literals" (listOf Document.value)
    types := ← required parts "types" (listOf fun type => liftM (ValueType.ofJson? type))
    functions := ← required parts "functions" (listOf Document.text)
    strict := ← required parts "strict" Document.flag }

def Chunk.persisted (c : Chunk) : String :=
  (c.toJson Value.toJson).compact

def Chunk.ofPersisted? (s : String) : Option Chunk :=
  (Json.parse? nestingLimit s).bind (Json.read? Chunk.ofJson)

end Script

end FactFold
