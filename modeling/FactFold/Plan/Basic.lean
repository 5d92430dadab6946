import FactFold.Config
import FactFold.Plan.Binding

namespace FactFold

structure Plan where
  name : String
  expression : String
  packages : List String := []
  importedTypes : List String := []
  importedMethods : List String := []
  importedFields : List String := []
  engine : List String := []
  globals : List String := []
  previous : List Binding := []
  locals : List Binding := []
  others : List String := []
  inputs : List String := []
  inputTypes : List String := []
  shadows : List String := []
  strict : Bool := false
  languageLevel : UInt32 := defaultLanguageLevel
deriving DecidableEq

namespace Plan

def withInput (p : Plan) (name type : String) : Plan :=
  { p with inputs := p.inputs ++ [name], inputTypes := p.inputTypes ++ [type] }

def named (p : Plan) : List String :=
  p.engine ++ p.globals ++ p.previous.map (·.identifier) ++ p.locals.map (·.identifier) ++ p.others

def replaceBinding (p : Plan) (old : UInt32) (binding : Binding) : Plan × Nat :=
  let swap (b : Binding) := if b.id = old then binding else b
  ({ p with previous := p.previous.map swap, locals := p.locals.map swap },
    (p.previous ++ p.locals).countP (·.id = old))

end Plan

def Config.plan (c : Config) (name expression : String) : Plan where
  name
  expression
  strict := c.strict
  languageLevel := c.languageLevel

end FactFold
