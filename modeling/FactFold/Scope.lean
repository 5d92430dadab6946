import FactFold.Value.Basic

namespace FactFold

abbrev Scope :=
  Entries String Value

structure Package where
  name : String
  values : Scope

structure ScopeChain where
  head : Scope := []
  rest : List Scope := []
  package : Option Package := none

namespace ScopeChain

def scopes (c : ScopeChain) : List Scope :=
  c.head :: c.rest

def resolve? (c : ScopeChain) (name : String) : Option Value :=
  c.scopes.findSome? (·.get? name) <|> c.package.bind (·.values.get? name)

def define (c : ScopeChain) (name : String) (v : Value) : ScopeChain :=
  { c with head := c.head.put name v }

def assignHead (c : ScopeChain) (name : String) (v : Value) : Except Value ScopeChain :=
  if c.head.has name then .ok (c.define name v) else .error v

def assignIn (name : String) (v : Value) : List Scope → Except Value (List Scope)
  | [] => .error v
  | scope :: rest =>
    if scope.has name then .ok (scope.put name v :: rest)
    else (assignIn name v rest).map (scope :: ·)

def assign (c : ScopeChain) (name : String) (v : Value) : Except Value ScopeChain :=
  match c.assignHead name v with
  | .ok c => .ok c
  | .error v => (assignIn name v c.rest).map fun rest => { c with rest }

end ScopeChain

end FactFold
