import FactFold.Entries

namespace FactFold

inductive Json where
  | null
  | bool (b : Bool)
  | int (n : Int)
  | float (x : Float)
  | text (s : String)
  | array (items : List Json)
  | object (members : List (String × Json))

namespace Json

instance : Inhabited Json :=
  ⟨null⟩

def nat (n : Nat) : Json :=
  int n

def texts (items : List String) : Json :=
  array (items.map text)

def member? (name : String) : Json → Option Json
  | object members => members.lookup name
  | _ => none

def ofOption {α : Type} (write : α → Json) : Option α → Json
  | none => null
  | some a => write a

end Json

end FactFold
