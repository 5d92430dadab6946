import FactFold.Plan.Basic
import FactFold.Registry

namespace FactFold

open Script (Native)

def splitLast? (path : String) : Option (String × String) :=
  let back := path.toList.reverse
  match back.dropWhile (· != '.') with
  | [] => none
  | _ :: owner => some (String.ofList owner.reverse, String.ofList (back.takeWhile (· != '.')).reverse)

def simpleName (path : String) : String :=
  match splitLast? path with
  | some (_, name) => name
  | none => path

def primitive? : String → Option ValueType
  | "int" => some .integer
  | "long" => some .integer
  | "short" => some .integer
  | "byte" => some .integer
  | "float" => some .float
  | "double" => some .float
  | "boolean" => some .boolean
  | "char" => some .text
  | _ => none

structure Imports where
  types : Entries String (String × ValueType)
  methods : Entries String Native
  fields : Entries String Value
  packages : List String

namespace Imports

variable {α : Type}

/-- Types by simple name; of two of the same simple name the later one counts. The error is the name
that the registry does not have. -/
def findTypes (r : Registry) : List String → Entries String (String × ValueType) →
    Except String (Entries String (String × ValueType))
  | [], found => .ok found
  | name :: rest, found =>
    match r.type? name with
    | some type => findTypes r rest (found.put (simpleName name) (name, type))
    | none => .error name

def findMembers (find : String → String → Option α) : List String → Entries String α →
    Except String (Entries String α)
  | [], found => .ok found
  | path :: rest, found =>
    match splitLast? path with
    | none => .error path
    | some (owner, name) =>
      match find owner name with
      | some a => findMembers find rest ((found.put name a).put path a)
      | none => .error path

def ofPlan (p : Plan) (r : Registry) : Except String Imports := do
  let types ← findTypes r p.importedTypes []
  let methods ← findMembers r.method? p.importedMethods []
  let fields ← findMembers r.field? p.importedFields []
  return ⟨types, methods, fields, p.packages⟩

def type? (i : Imports) (r : Registry) (name : String) : Option ValueType :=
  primitive? name
    <|> (i.types.get? name).map Prod.snd
    <|> i.packages.findSome? (fun package => r.type? (package ++ "." ++ name))
    <|> r.type? name

def owner? (i : Imports) (name : String) : Option String :=
  (i.types.get? name).map Prod.fst
    <|> (i.types.map fun (_, qualified, _) => qualified).find? (· == name)

def member? (i : Imports) (imported : Entries String α) (find : String → String → Option α) (path : String) :
    Option α :=
  imported.get? path <|> do
    let (owner, name) ← splitLast? path
    find (← i.owner? owner) name

def constant? (i : Imports) (r : Registry) (path : String) : Option Value :=
  i.member? i.fields r.field? path

def function? (i : Imports) (r : Registry) (path : String) : Option Native :=
  i.member? i.methods r.method? path

end Imports

end FactFold
