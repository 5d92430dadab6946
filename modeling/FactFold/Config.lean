import FactFold.Document

namespace FactFold

def defaultLanguageLevel : UInt32 := 4

def maxLanguageLevel : UInt32 := 5

structure Config where
  strict : Bool := false
  languageLevel : UInt32 := defaultLanguageLevel
  maxStackDepth : UInt64 := 1024
  maxNestingDepth : UInt64 := 256

def Config.read {δ : Type} [Document δ] (d : δ) : Reading Config := do
  let base : Config := {}
  let parts ← Document.parts ["strictMode", "languageLevel", "maxStackDepth", "maxNestingDepth"] d
  return {
    strict := ← withDefault parts "strictMode" base.strict Document.flag
    languageLevel := ← withDefault parts "languageLevel" base.languageLevel count32
    maxStackDepth := ← withDefault parts "maxStackDepth" base.maxStackDepth Document.count
    maxNestingDepth := ← withDefault parts "maxNestingDepth" base.maxNestingDepth Document.count }

end FactFold
