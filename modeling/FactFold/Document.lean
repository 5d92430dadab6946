import FactFold.Value.Basic

/-!
Typed data is read from documents of any form that holds maps, sequences and scalars. A record takes its
parts by name. It ignores parts that it does not know, and some of its parts may be left out.
-/

namespace FactFold

/-- A reading fails or has a result. It counts down how many references of the document may still be
followed, so that a short document cannot stand for a huge one. -/
abbrev Reading (α : Type) :=
  StateT Nat Option α

class Document (δ : Type) where
  present : δ → Reading (Option δ)
  text : δ → Reading String
  flag : δ → Reading Bool
  count : δ → Reading UInt64
  items : δ → Reading (List δ)
  entries : δ → Reading (List (String × δ))
  -- The parts of a record that has parts of the given names. None of them may come twice.
  parts : List String → δ → Reading (Entries String δ)
  value : δ → Reading Value

section

variable {δ α : Type}

def required (parts : Entries String δ) (name : String) (read : δ → Reading α) : Reading α :=
  match parts.get? name with
  | some part => read part
  | none => failure

def withDefault (parts : Entries String δ) (name : String) (default : α) (read : δ → Reading α) :
    Reading α :=
  match parts.get? name with
  | some part => read part
  | none => pure default

variable [Document δ]

def optional (parts : Entries String δ) (name : String) (read : δ → Reading α) : Reading (Option α) := do
  match parts.get? name with
  | none => return none
  | some part =>
    match ← Document.present part with
    | none => return none
    | some part => return some (← read part)

def listOf (read : δ → Reading α) (d : δ) : Reading (List α) := do
  (← Document.items d).mapM read

def entriesOf (read : δ → Reading α) (d : δ) : Reading (Entries String α) := do
  let entries ← (← Document.entries d).mapM fun (name, d) => return (name, ← read d)
  return Entries.ofList entries

def count32 (d : δ) : Reading UInt32 := do
  let n ← Document.count d
  if n.toNat < UInt32.size then return n.toUInt32 else failure

def textsOf (parts : Entries String δ) (name : String) : Reading (List String) :=
  withDefault parts name [] (listOf Document.text)

end

end FactFold
