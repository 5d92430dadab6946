import FactFold.Scenario.Basic

namespace FactFold

variable {δ : Type} [Document δ]

def BoundName.readPrevious (d : δ) : Reading BoundName := do
  let parts ← Document.parts ["identifier", "offset", "field", "type"] d
  return {
    identifier := ← required parts "identifier" Document.text
    offset := ← withDefault parts "offset" 0 Document.count
    field := ← optional parts "field" Document.text
    type := ← withDefault parts "type" "Object" Document.text }

def BoundName.readLocal (d : δ) : Reading BoundName := do
  let parts ← Document.parts ["identifier", "field", "type"] d
  return {
    identifier := ← required parts "identifier" Document.text
    field := ← optional parts "field" Document.text
    type := ← withDefault parts "type" "Object" Document.text }

def Clause.readImports (c : Clause) (d : δ) : Reading Clause := do
  let parts ← Document.parts ["packages", "types", "methods", "fields"] d
  return { c with
    packages := ← textsOf parts "packages"
    importedTypes := ← textsOf parts "types"
    importedMethods := ← textsOf parts "methods"
    importedFields := ← textsOf parts "fields" }

def Clause.read (d : δ) : Reading Clause := do
  let base : Clause := {}
  let parts ← Document.parts ["factIdentifier", "factType", "variables", "globals", "engine", "previous",
    "locals", "imports", "shadowIdentifiers", "init", "action", "reverse", "result"] d
  let imported ← withDefault parts "imports" base base.readImports
  return { imported with
    factIdentifier := ← withDefault parts "factIdentifier" base.factIdentifier Document.text
    factType := ← withDefault parts "factType" base.factType Document.text
    vars := ← withDefault parts "variables" [] (entriesOf Document.text)
    globals := ← withDefault parts "globals" [] (entriesOf Document.text)
    engine := ← textsOf parts "engine"
    previous := ← withDefault parts "previous" [] (listOf BoundName.readPrevious)
    locals := ← withDefault parts "locals" [] (listOf BoundName.readLocal)
    shadows := ← textsOf parts "shadowIdentifiers"
    init := ← withDefault parts "init" "" Document.text
    action := ← withDefault parts "action" "" Document.text
    reverse := ← optional parts "reverse" Document.text
    result := ← withDefault parts "result" "" Document.text }

def readKeyed (d : δ) : Reading (String × Value) := do
  let parts ← Document.parts ["key", "value"] d
  return (← required parts "key" Document.text, ← required parts "value" Document.value)

def readExpected (d : δ) : Reading (Option Value) := do
  let parts ← Document.parts ["expect"] d
  optional parts "expect" Document.value

def Step.read (d : δ) : Reading Step := do
  let parts ← Document.parts ["insert", "retract", "update", "result"] d
  return {
    insert := ← optional parts "insert" readKeyed
    retract := ← optional parts "retract" Document.text
    update := ← optional parts "update" readKeyed
    result := ← optional parts "result" readExpected }

def Package.read (d : δ) : Reading Package := do
  let parts ← Document.parts ["name", "values"] d
  return {
    name := ← required parts "name" Document.text
    values := ← withDefault parts "values" [] (entriesOf Document.value) }

def Scenario.readMetadata (s : Scenario) (d : δ) : Reading Scenario := do
  let parts ← Document.parts ["name", "title", "description"] d
  return { s with
    name := ← required parts "name" Document.text
    title := ← optional parts "title" Document.text
    description := ← optional parts "description" Document.text }

def Scenario.read (d : δ) : Reading Scenario := do
  let parts ← Document.parts ["apiVersion", "kind", "metadata", "config", "globals", "package", "tuple",
    "accumulate", "steps"] d
  let base : Scenario := { clause := ← required parts "accumulate" Clause.read }
  let described ← withDefault parts "metadata" base base.readMetadata
  return { described with
    apiVersion := ← withDefault parts "apiVersion" base.apiVersion Document.text
    kind := ← withDefault parts "kind" base.kind Document.text
    config := ← withDefault parts "config" {} Config.read
    globals := ← withDefault parts "globals" [] (entriesOf Document.value)
    package := ← optional parts "package" Package.read
    tuple := ← withDefault parts "tuple" [] (listOf Document.value)
    steps := ← withDefault parts "steps" [] (listOf Step.read) }

end FactFold
