import FactFold.Value.Basic

namespace FactFold

inductive Extractor where
  | whole
  | field (name : String)
deriving DecidableEq

def Extractor.extract? : Extractor → Value → Option Value
  | whole, v => some v
  | field name, v => v.field? name

structure Binding where
  id : UInt32
  identifier : String
  offset : UInt64
  extractor : Extractor
deriving DecidableEq

def Binding.idText (id : UInt32) : String :=
  "binding#" ++ toString id

end FactFold
