import FactFold.Imports
import FactFold.Plan.Layout
import FactFold.Script.Compile
import FactFold.Text.Blank

namespace FactFold

open Script (ScriptError Program Symbols Compiler)

inductive CompileCause where
  | unresolvedImport
  | unresolvedType (input : String)
  | invalidPlan (e : PlanError)
  | script (e : ScriptError)
  | languageLevel (level : UInt32)
  | reverseInputs
  | otherVariables

def CompileCause.message : CompileCause → String
  | unresolvedImport => "unresolved import"
  | unresolvedType input => "unresolved type for input `" ++ input ++ "`"
  | invalidPlan e => "invalid binding plan: " ++ e.message
  | script e => e.message
  | languageLevel level =>
    "language level " ++ toString level ++ " is not supported (expected 1..=" ++ toString maxLanguageLevel ++ ")"
  | reverseInputs => "reverse unit inputs differ from the action unit inputs"
  | otherVariables => "unit does not share the accumulator's other identifiers"

structure CompileError where
  unit : String
  symbol : String
  cause : CompileCause

def CompileError.message (e : CompileError) : String :=
  e.unit ++ ": cannot compile `" ++ e.symbol ++ "`: " ++ e.cause.message

structure CompiledUnit where
  plan : Plan
  layout : SlotLayout
  inputs : Entries String ValueType
  program : Program
  maxStackDepth : Nat

def CompiledUnit.name (u : CompiledUnit) : String :=
  u.plan.name

def unitSymbols (r : Registry) (imports : Imports) (inputs : Entries String ValueType) : Symbols where
  input name :=
    match inputs.position? name, inputs.get? name with
    | some slot, some type => if slot < UInt16.size then some (UInt16.ofNat slot, type) else none
    | _, _ => none
  constant := imports.constant? r
  function := imports.function? r
  type := imports.type? r

def scriptSymbol (unit : String) : ScriptError → String
  | .unknownName name _ => name
  | .unknownType name _ => name
  | .unknownFunction name _ => name
  | .notAssignable target _ => target
  | _ => unit

namespace Plan

def resolveInputs (r : Registry) (imports : Imports) : List (String × String) → Entries String ValueType →
    Except (String × String) (Entries String ValueType)
  | [], found => .ok found.reverse
  | (name, typeName) :: rest, found =>
    match imports.type? r typeName with
    | some type => resolveInputs r imports rest ((name, type) :: found)
    | none => .error (name, typeName)

/-- Compiles a plan. The blanks around the source do not count, and are not counted in positions. -/
def compile (config : Config) (r : Registry) (p : Plan) : Except CompileError CompiledUnit := do
  let fail {α : Type} (symbol : String) (cause : CompileCause) : Except CompileError α :=
    .error ⟨p.name, symbol, cause⟩
  if p.languageLevel = 0 ∨ maxLanguageLevel < p.languageLevel then
    fail p.name (.languageLevel p.languageLevel)
  let layout ← match p.validate with
    | .ok layout => .ok layout
    | .error e => fail p.name (.invalidPlan e)
  let imports ← match Imports.ofPlan p r with
    | .ok imports => .ok imports
    | .error name => fail name .unresolvedImport
  let inputs ← match resolveInputs r imports (p.inputs.zip p.inputTypes) [] with
    | .ok inputs => .ok inputs
    | .error (name, typeName) => fail typeName (.unresolvedType name)
  let compiler : Compiler := ⟨unitSymbols r imports inputs, p.strict⟩
  match compiler.source config.maxNestingDepth.toNat (Text.trim p.expression) with
  | .ok program => return ⟨p, layout, inputs, program, config.maxStackDepth.toNat⟩
  | .error e => fail (scriptSymbol p.name e) (.script e)

end Plan

end FactFold
