import FactFold.Value.Basic

namespace FactFold

inductive ValueType where
  | any
  | boolean
  | integer
  | float
  | number
  | text
  | list
  | record (name : String)
deriving DecidableEq

namespace ValueType

def isConstrained : ValueType → Bool
  | any => false
  | _ => true

def accepts : ValueType → Value → Bool
  | any, _ => true
  | boolean, .bool _ => true
  | integer, .int _ => true
  | float, .float _ => true
  | float, .int _ => true
  | number, .null => true
  | number, .int _ => true
  | number, .float _ => true
  | text, .null => true
  | text, .text _ => true
  | list, .null => true
  | list, .list _ => true
  | record _, .null => true
  | record _, .record _ => true
  | _, _ => false

def coerce : ValueType → Value → Value
  | float, .int n => .float (Float.ofInt n.toInt)
  | _, v => v

def toText : ValueType → String
  | any => "Object"
  | boolean => "boolean"
  | integer => "int"
  | float => "double"
  | number => "Number"
  | text => "String"
  | list => "List"
  | record name => name

end ValueType

end FactFold
