import FactFold.Value.Operators
import FactFold.Value.Type

namespace FactFold

inductive TableKind where
  | literal
  | name
  | field
  | type
  | function
deriving DecidableEq

def TableKind.toText : TableKind → String
  | literal => "literal"
  | name => "name"
  | field => "field"
  | type => "type"
  | function => "function"

inductive Operation where
  | arith (op : ArithOp)
  | order (op : OrderOp)
  | unary (op : UnaryOp)
  | condition
  | assignment
  | declaration (name : String)
deriving DecidableEq

def Operation.toText : Operation → String
  | arith op => op.sign
  | order op => op.sign
  | unary op => op.sign
  | condition => "condition"
  | assignment => "assignment"
  | declaration name => "declaration of `" ++ name ++ "`"

inductive Demand where
  | number
  | boolean
  | type (t : ValueType)
deriving DecidableEq

def Demand.toText : Demand → String
  | number => "number"
  | boolean => "boolean"
  | type t => t.toText

inductive RunError where
  | unresolved (name : String)
  | redeclared (name : String)
  | mismatch (operation : Operation) (wanted : Demand) (found : String)
  | divisionByZero
  | overflow (operation : Operation)
  | noField (field found : String)
  | functionFailed (function message : String)
  | stackUnderflow (instruction : Nat)
  | stackOverflow (limit : Nat)
  | invalidSlot (slot : UInt16)
  | invalidOperand (table : TableKind) (index : Nat)
deriving DecidableEq

def RunError.message : RunError → String
  | unresolved name => "unresolved identifier `" ++ name ++ "`"
  | redeclared name => "`" ++ name ++ "` is a typed input and cannot be redeclared"
  | mismatch operation wanted found =>
    "type mismatch in " ++ operation.toText ++ ": expected " ++ wanted.toText ++ ", found " ++ found
  | divisionByZero => "division by zero"
  | overflow operation => "integer overflow in " ++ operation.toText
  | noField field found => "no field `" ++ field ++ "` on " ++ found
  | functionFailed function message => "function `" ++ function ++ "` failed: " ++ message
  | stackUnderflow instruction => "stack underflow at op " ++ toString instruction
  | stackOverflow limit => "stack depth exceeded limit of " ++ toString limit
  | invalidSlot slot => "invalid slot " ++ toString slot
  | invalidOperand table index => "invalid operand " ++ toString index ++ " for " ++ table.toText ++ " table"

end FactFold
