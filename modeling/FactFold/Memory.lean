import FactFold.Scope

namespace FactFold

structure Fact where
  id : UInt64
  value : Value

def Fact.idText (id : UInt64) : String :=
  "fact#" ++ toString id

structure Memory where
  globals : Entries String Value := []
  handles : Entries String Value := []
  package : Option Package := none

namespace Memory

def global (m : Memory) (name : String) : Value :=
  (m.globals.get? name).getD .null

def handle (m : Memory) (name : String) : Value :=
  (m.handles.get? name).getD .null

end Memory

end FactFold
