import FactFold.Context

/-!
An accumulator folds facts into the state of a group with four units: `init` sets the variables of the
group, `action` folds a fact into them, `reverse` undoes the fold of a fact, and `result` reads an
answer off them. A reversible accumulator keeps, for each fact that is folded, the context it was
folded in, so that the fold is undone with the values it was made with.
-/

namespace FactFold

structure CompiledUnits where
  init : CompiledUnit
  action : CompiledUnit
  reverse : Option CompiledUnit
  result : CompiledUnit

structure Accumulator where
  init : Plan
  action : Plan
  reverse : Option Plan := none
  result : Plan
  compiled : Option CompiledUnits := none

structure Group where
  identifiers : List String
  vars : List Value
  -- The contexts of the folds that are not undone, by fact; only for reversible accumulators.
  snapshots : Option (Entries UInt64 Context)

inductive FoldError where
  | notCompiled
  | irreversible
  | noSnapshot (fact : UInt64)
  | run (e : RunError)
  | context (e : ContextError)

def FoldError.message : FoldError → String
  | notCompiled => "accumulator is not compiled"
  | irreversible => "accumulator does not support reverse"
  | noSnapshot fact => "no snapshot recorded for " ++ Fact.idText fact
  | run e => e.message
  | context e => e.message

namespace Group

def value? (g : Group) (name : String) : Option Value :=
  (g.identifiers.findIdx? (· == name)).bind (g.vars[·]?)

def snapshot? (g : Group) (fact : UInt64) : Option Context :=
  g.snapshots.bind (·.get? fact)

def snapshotCount (g : Group) : Nat :=
  (g.snapshots.map List.length).getD 0

end Group

namespace Accumulator

def plans (a : Accumulator) : List Plan :=
  [a.init, a.action] ++ a.reverse.toList ++ [a.result]

def isReversible (a : Accumulator) : Bool :=
  a.reverse.isSome

def isCompiled (a : Accumulator) : Bool :=
  a.compiled.isSome

def uncompiled (a : Accumulator) : Accumulator :=
  { a with compiled := none }

def sameInputs (u v : CompiledUnit) : Bool :=
  u.inputs == v.inputs && u.layout == v.layout

def compileReverse (config : Config) (r : Registry) (action : CompiledUnit) (p : Plan) :
    Except CompileError CompiledUnit := do
  let reverse ← p.compile config r
  -- it runs on contexts that were made for the folding unit
  if sameInputs reverse action then return reverse
  else .error ⟨p.name, p.name, .reverseInputs⟩

def units (config : Config) (r : Registry) (a : Accumulator) : Except CompileError CompiledUnits := do
  match a.plans.find? (·.others != a.init.others) with
  | some p => .error ⟨p.name, p.name, .otherVariables⟩
  | none =>
    let init ← a.init.compile config r
    let action ← a.action.compile config r
    let reverse ← a.reverse.mapM (compileReverse config r action)
    let result ← a.result.compile config r
    return ⟨init, action, reverse, result⟩

def compile (config : Config) (r : Registry) (a : Accumulator) : Except CompileError Accumulator :=
  if a.isCompiled then .ok a
  else (a.units config r).map fun units => { a with compiled := some units }

def replaceBinding (a : Accumulator) (old : UInt32) (binding : Binding) : Accumulator × Nat :=
  let (init, n₁) := a.init.replaceBinding old binding
  let (action, n₂) := a.action.replaceBinding old binding
  let reverse := a.reverse.map (·.replaceBinding old binding)
  let n₃ := (reverse.map Prod.snd).getD 0
  let (result, n₄) := a.result.replaceBinding old binding
  let n := n₁ + n₂ + n₃ + n₄
  ({ init, action, reverse := reverse.map Prod.fst, result, compiled := if n = 0 then a.compiled else none }, n)

def group (a : Accumulator) : Group where
  identifiers := a.init.others
  vars := []
  snapshots := if a.isReversible then some [] else none

abbrev Folded (α : Type) :=
  Except FoldError α × Group

def reset (a : Accumulator) (g : Group) (tuple : List Fact) (memory : Memory) : Folded Unit :=
  match a.compiled with
  | none => (.error .notCompiled, g)
  | some units =>
    match units.init.context none tuple memory (a.init.others.map fun _ => .null) with
    | .error e => (.error (.context e), g)
    | .ok context =>
      match units.init.run context with
      | ⟨.error e, _⟩ => (.error (.run e), g)
      | ⟨.ok _, context⟩ =>
        (.ok (), { g with vars := context.others, snapshots := g.snapshots.map fun _ => [] })

def accumulate (a : Accumulator) (g : Group) (tuple : List Fact) (fact : Fact) (memory : Memory) : Folded Unit :=
  match a.compiled with
  | none => (.error .notCompiled, g)
  | some units =>
    match units.action.context (some fact) tuple memory g.vars with
    | .error e => (.error (.context e), g)
    | .ok context =>
      let ⟨result, context⟩ := units.action.run context
      let g := { g with snapshots := g.snapshots.map (·.put fact.id context) }
      match result with
      | .error e => (.error (.run e), g)
      | .ok _ => (.ok (), { g with vars := context.others })

/-- Undoes the fold of a fact in the context of the fold, with the variables as they are now. The
snapshot is spent whether that works or not. -/
def reverseFold (a : Accumulator) (g : Group) (fact : Fact) : Folded Unit :=
  match a.compiled with
  | none => (.error .notCompiled, g)
  | some units =>
    match units.reverse with
    | none => (.error .irreversible, g)
    | some reverse =>
      match g.snapshot? fact.id with
      | none => (.error (.noSnapshot fact.id), g)
      | some context =>
        let g := { g with snapshots := g.snapshots.map (·.erase fact.id) }
        match context.setOthers g.vars with
        | .error e => (.error (.context e), g)
        | .ok context =>
          match reverse.run context with
          | ⟨.error e, _⟩ => (.error (.run e), g)
          | ⟨.ok _, context⟩ => (.ok (), { g with vars := context.others })

def answer (a : Accumulator) (g : Group) (tuple : List Fact) (memory : Memory) : Except FoldError Value :=
  match a.compiled with
  | none => .error .notCompiled
  | some units =>
    match units.result.context none tuple memory g.vars with
    | .error e => .error (.context e)
    | .ok context =>
      match (units.result.run context).result with
      | .error e => .error (.run e)
      | .ok v => .ok (v.getD .null)

end Accumulator

end FactFold
