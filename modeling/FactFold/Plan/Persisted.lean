import FactFold.Json.Document
import FactFold.Plan.Basic

namespace FactFold

open Json

def Extractor.toJson : Extractor → Json
  | whole => .text "whole"
  | field name => .object [("field", .text name)]

def Extractor.ofJson (j : Json) : Reading Extractor :=
  match j.asChoice? with
  | some ("whole", .null) => return whole
  | some ("field", .text name) => return field name
  | _ => failure

namespace Binding

def toJson (b : Binding) : Json :=
  .object [("id", .nat b.id.toNat), ("identifier", .text b.identifier), ("patternOffset", .nat b.offset.toNat),
    ("extractor", b.extractor.toJson)]

def ofJson (j : Json) : Reading Binding := do
  let parts ← Document.parts ["id", "identifier", "patternOffset", "extractor"] j
  return {
    id := ← required parts "id" count32
    identifier := ← required parts "identifier" Document.text
    offset := ← required parts "patternOffset" Document.count
    extractor := ← required parts "extractor" Extractor.ofJson }

end Binding

namespace Plan

def partNames : List String :=
  ["name", "expression", "packageImports", "importedTypes", "importedMethods", "importedFields",
    "engineIdentifiers", "globalIdentifiers", "previousBindings", "localBindings", "otherIdentifiers",
    "inputIdentifiers", "inputTypes", "shadowIdentifiers", "strictMode", "languageLevel"]

def toJson (p : Plan) : Json :=
  .object <| partNames.zip
    [.text p.name, .text p.expression, .texts p.packages, .texts p.importedTypes, .texts p.importedMethods,
      .texts p.importedFields, .texts p.engine, .texts p.globals, .array (p.previous.map Binding.toJson),
      .array (p.locals.map Binding.toJson), .texts p.others, .texts p.inputs, .texts p.inputTypes,
      .texts p.shadows, .bool p.strict, .nat p.languageLevel.toNat]

def ofJson (j : Json) : Reading Plan := do
  let parts ← Document.parts partNames j
  return {
    name := ← required parts "name" Document.text
    expression := ← required parts "expression" Document.text
    packages := ← textsOf parts "packageImports"
    importedTypes := ← textsOf parts "importedTypes"
    importedMethods := ← textsOf parts "importedMethods"
    importedFields := ← textsOf parts "importedFields"
    engine := ← textsOf parts "engineIdentifiers"
    globals := ← textsOf parts "globalIdentifiers"
    previous := ← withDefault parts "previousBindings" [] (listOf Binding.ofJson)
    locals := ← withDefault parts "localBindings" [] (listOf Binding.ofJson)
    others := ← textsOf parts "otherIdentifiers"
    inputs := ← textsOf parts "inputIdentifiers"
    inputTypes := ← textsOf parts "inputTypes"
    shadows := ← textsOf parts "shadowIdentifiers"
    strict := ← withDefault parts "strictMode" false Document.flag
    languageLevel := ← withDefault parts "languageLevel" defaultLanguageLevel count32 }

def persisted (p : Plan) : String :=
  p.toJson.compact

end Plan

end FactFold
