import FactFold.Accumulator.Basic

namespace FactFold

structure BoundName where
  identifier : String
  offset : UInt64 := 0
  field : Option String := none
  type : String := "Object"

structure Clause where
  factIdentifier : String := "$fact"
  factType : String := "Object"
  vars : Entries String String := []
  globals : Entries String String := []
  engine : List String := []
  previous : List BoundName := []
  locals : List BoundName := []
  packages : List String := []
  importedTypes : List String := []
  importedMethods : List String := []
  importedFields : List String := []
  shadows : List String := []
  init : String := ""
  action : String := ""
  reverse : Option String := none
  result : String := ""

def BoundName.binding (b : BoundName) (id : Nat) : Binding where
  id := UInt32.ofNat id
  identifier := b.identifier
  offset := b.offset
  extractor := match b.field with
    | some name => .field name
    | none => .whole

def bindings (first : Nat) (names : List BoundName) : List Binding :=
  (names.zipIdx first).map fun (b, id) => b.binding id

namespace Clause

def inputs (c : Clause) (seesFact : Bool) : List (String × String) :=
  (if seesFact then [(c.factIdentifier, c.factType)] else [])
    ++ c.engine.map (·, "Object")
    ++ c.globals
    ++ c.previous.map (fun b => (b.identifier, b.type))
    ++ (if seesFact then c.locals.map fun b => (b.identifier, b.type) else [])
    ++ c.vars

def plan (c : Clause) (config : Config) (name expression : String) (seesFact : Bool) : Plan :=
  { config.plan name expression with
    packages := c.packages
    importedTypes := c.importedTypes
    importedMethods := c.importedMethods
    importedFields := c.importedFields
    engine := c.engine
    globals := c.globals.map Prod.fst
    previous := bindings 0 c.previous
    locals := if seesFact then bindings c.previous.length c.locals else []
    others := c.vars.map Prod.fst
    inputs := (c.inputs seesFact).map Prod.fst
    inputTypes := (c.inputs seesFact).map Prod.snd
    shadows := c.shadows }

def accumulator (c : Clause) (config : Config) (name : String) : Accumulator where
  init := c.plan config (name ++ ".init") c.init false
  action := c.plan config (name ++ ".action") c.action true
  reverse := c.reverse.map fun source => c.plan config (name ++ ".reverse") source true
  result := c.plan config (name ++ ".result") c.result false

end Clause

end FactFold
