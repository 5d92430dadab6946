import FactFold.Document
import FactFold.Value.Json

namespace FactFold.Json

def asText? : Json → Option String
  | text s => some s
  | _ => none

def asFlag? : Json → Option Bool
  | bool b => some b
  | _ => none

def asCount? : Json → Option UInt64
  | int n => if 0 ≤ n ∧ n < UInt64.size then some (UInt64.ofNat n.toNat) else none
  | _ => none

def asItems? : Json → Option (List Json)
  | array items => some items
  | _ => none

def asEntries? : Json → Option (List (String × Json))
  | object members => some members
  | _ => none

def asNamedParts? (names : List String) : Json → Option (Entries String Json)
  | object members =>
    let known := members.filter fun (name, _) => names.contains name
    if (known.map Prod.fst).Nodup then some known else none
  | _ => none

def asParts? (names : List String) : Json → Option (Entries String Json)
  | array items => if items.length ≤ names.length then some (names.zip items) else none
  | j => j.asNamedParts? names

instance : Document Json where
  present
    | null => pure none
    | j => pure (some j)
  text j := j.asText?
  flag j := j.asFlag?
  count j := j.asCount?
  items j := j.asItems?
  entries j := j.asEntries?
  parts names j := j.asParts? names
  value j := pure (Value.ofJson j)

def asChoice? : Json → Option (String × Json)
  | text name => some (name, null)
  | object [(name, part)] => some (name, part)
  | _ => none

def read? {α : Type} (read : Json → Reading α) (j : Json) : Option α :=
  (read j).run' 0

end FactFold.Json
