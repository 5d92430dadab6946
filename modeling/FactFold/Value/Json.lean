import FactFold.Json.Writer
import FactFold.Value.Basic

namespace FactFold.Value

mutual

def toJson : Value → Json
  | null => .null
  | bool b => .bool b
  | int n => .int n.toInt
  | float x => .float x
  | text s => .text s
  | list items => .array (itemsToJson items)
  | record fields => .object (fieldsToJson fields)

def itemsToJson : List Value → List Json
  | [] => []
  | v :: rest => toJson v :: itemsToJson rest

def fieldsToJson : List (String × Value) → List (String × Json)
  | [] => []
  | (name, v) :: rest => (name, toJson v) :: fieldsToJson rest

end

mutual

def ofJson : Json → Value
  | .null => null
  | .bool b => bool b
  | .int n => ((int64? n).map int).getD (float (Float.ofInt n))
  | .float x => float x
  | .text s => text s
  | .array items => list (itemsOfJson items)
  | .object members => ofFields (fieldsOfJson members)

def itemsOfJson : List Json → List Value
  | [] => []
  | item :: rest => ofJson item :: itemsOfJson rest

def fieldsOfJson : List (String × Json) → List (String × Value)
  | [] => []
  | (name, item) :: rest => (name, ofJson item) :: fieldsOfJson rest

end

def persisted (v : Value) : String :=
  v.toJson.compact

end FactFold.Value
