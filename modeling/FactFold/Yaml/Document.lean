import FactFold.Document
import FactFold.Yaml.Meaning
import FactFold.Yaml.Node
import FactFold.Yaml.Scan

namespace FactFold.Yaml

def nestingLimit : Nat := 128

structure View where
  anchored : List (Nat × Node)
  depth : Nat
  node : Node

namespace View

def target (v : View) : Reading Node := do
  match v.node with
  | .reference a =>
    match ← get, v.anchored.lookup a with
    | references + 1, some n => do
      set references
      return n
    | _, _ => failure
  | n => return n

def inner (v : View) (n : Node) : View :=
  { v with depth := v.depth - 1, node := n }

def isEmptyText : Node → Bool
  | .scalar _ _ .plain "" => true
  | _ => false

def countsAs (expected : Tag) (tag : Option Tag) (style : Style) : Bool :=
  style == .plain || style == .literal && tag == some expected

def present (v : View) : Reading (Option View) := do
  let n ← v.target
  match n with
  | .scalar _ tag .plain text =>
    if tag = some nullTag then
      if isNullText text then return none else failure
    else if tag.isNone && (text.isEmpty || isNullText text) then return none
    else return some { v with node := n }
  | n => return some { v with node := n }

def text (v : View) : Reading String := do
  match ← v.target with
  | .scalar _ _ _ text => return text
  | _ => failure

def flag (v : View) : Reading Bool := do
  match ← v.target with
  | .scalar _ tag style text => if countsAs boolTag tag style then bool? text else failure
  | _ => failure

def count (v : View) : Reading UInt64 := do
  match ← v.target with
  | .scalar _ tag style text =>
    match if countsAs intTag tag style then int? text.toList else none with
    | some n => if text.toList.head? != some '-' && n < UInt64.size then return UInt64.ofNat n.toNat else failure
    | none => failure
  | _ => failure

def items (v : View) : Reading (List View) := do
  match ← v.target with
  | .sequence _ _ items => if v.depth = 0 then failure else return items.map v.inner
  | n => if isEmptyText n then return [] else failure

def entries (v : View) : Reading (List (String × View)) := do
  match ← v.target with
  | .mapping _ _ entries =>
    if v.depth = 0 then failure
    else entries.mapM fun (k, n) => return (← (v.inner k).text, v.inner n)
  | n => if isEmptyText n then return [] else failure

def parts (names : List String) (v : View) : Reading (Entries String View) := do
  let known := (← v.entries).filter fun (name, _) => names.contains name
  if (known.map Prod.fst).Nodup then return known else failure

def valueOf (anchored : List (Nat × Node)) : (depth : Nat) → Node → Reading Value
  | depth, n => do
    match ← target ⟨anchored, depth, n⟩, depth with
    | .scalar _ tag style text, _ => scalarValue? tag style text
    | .sequence _ tag items, depth + 1 =>
      if tag.any Tag.isPrivate then failure
      else return .list (← items.mapM (valueOf anchored depth))
    | .mapping _ tag entries, depth + 1 =>
      if tag.any Tag.isPrivate then failure
      else
        let fields ← entries.mapM fun (k, n) => do
          match ← valueOf anchored depth k with
          | .text name => return (name, ← valueOf anchored depth n)
          | _ => failure
        return .ofFields fields
    | _, _ => failure
termination_by structural depth => depth

def value (v : View) : Reading Value :=
  valueOf v.anchored v.depth v.node

instance : Document View where
  present := present
  text := text
  flag := flag
  count := count
  items := items
  entries := entries
  parts := parts
  value := value

end View

/-- What a reading of a text gives. References may be followed a hundred times as often as there are parts
of the document. -/
def read? {α : Type} (read : View → Reading α) (s : String) : Option α := do
  let n ← document? (← tokens? s)
  (read ⟨n.anchored.reverse, nestingLimit, n⟩).run' (100 * n.size)

end FactFold.Yaml
