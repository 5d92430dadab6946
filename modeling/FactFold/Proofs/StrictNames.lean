import FactFold.Proofs.Script.Unresolved
import FactFold.Proofs.Unit

/-!
A strict plan compiles only if each name is an input, a constant or declared before in the text. A variable
that is declared in a branch is declared behind it too, so a run that comes past the branch may read it in
vain. This is the only way for a run to miss a name.
-/

namespace FactFold

open Script

/-- A run of a strict unit misses a name only where the text reads it behind its declaration, but some path
to the read does not write it, and only if the context held nothing under the name. -/
theorem missing_name_exposed {config : Config} {r : Registry} {p : Plan} {u : CompiledUnit}
    (hs : p.strict = true) (h : p.compile config r = .ok u) {k : Context} {n : String}
    (hn : (u.run k).result = .error (.unresolved n)) :
    k.resolve n = .error (.unresolved n) ∧
      ∃ ss, p.Parses config.maxNestingDepth.toNat ss ∧ n ∈ exposedNames ss := by
  obtain ⟨rfl, -, ss, hparses, hprogram⟩ := CompiledUnit.compile_eq_ok h
  obtain ⟨hexposed, hmissed⟩ := misses_of_run hs hprogram u.maxStackDepth k hn
  refine ⟨?_, ss, hparses, hexposed⟩
  cases hk : k.resolve n with
  | error e => rw [(Context.resolve_eq_error hk).1]
  | ok v =>
    -- what is held before a run is held behind it
    have hheld : (u.run k).frame.Holds n := (Context.preserved_holds n).runFrom _ _ _ _ _ ⟨v, hk⟩
    exact ((Context.resolve_eq_error hmissed).2 hheld).elim

def bonusPlan : Plan where
  name := "bonus"
  expression := "if (rate > 2) \x7b var bonus = rate * 10; \x7d rate + bonus"
  globals := ["rate"]
  inputs := ["rate"]
  inputTypes := ["Object"]
  strict := true

def bonusRegistry : Registry :=
  ⟨[("Object", .any)], [], []⟩

def bonusUnit : CompiledUnit where
  plan := bonusPlan
  layout := ⟨0, 0, 1, 0, 0, 0⟩
  inputs := [("rate", .any)]
  program :=
    { chunk :=
        { ops := [.loadSlot 0, .literal 0, .strict (.order .gt), .jumpIfFalse 4, .loadSlot 0, .literal 1,
            .strict (.arith .mul), .declare 0 none, .loadSlot 0, .loadName 0, .strict (.arith .add), .ret]
          names := ["bonus"]
          literals := [.int 2, .int 10]
          strict := true }
      natives := [] }
  maxStackDepth := 1024

def bonusMemory : Memory where
  globals := [("rate", .int 1)]
  package := some ⟨"shop", [("fee", .int 5)]⟩

def bonusContext : Context where
  unit := "bonus"
  inputs := [("rate", .any)]
  slots := [.int 1]
  layout := ⟨0, 0, 1, 0, 0, 0⟩
  scope := { package := some ⟨"shop", [("fee", .int 5)]⟩ }

theorem bonus_compile : bonusPlan.compile {} bonusRegistry = .ok bonusUnit := by
  cbv

theorem missing_name_exposed_bonus :
    (bonusUnit.run bonusContext).result = .error (.unresolved "bonus") ∧
      ∃ ss, bonusPlan.Parses 256 ss ∧ "bonus" ∈ exposedNames ss := by
  have hn : (bonusUnit.run bonusContext).result = .error (.unresolved "bonus") := rfl
  exact ⟨hn, (missing_name_exposed rfl bonus_compile hn).2⟩

theorem strict_run_misses_name :
    bonusPlan.strict = true ∧ bonusPlan.compile {} bonusRegistry = .ok bonusUnit ∧
      bonusUnit.context none [] bonusMemory [] = .ok bonusContext ∧
      (bonusUnit.run bonusContext).result = .error (.unresolved "bonus") :=
  ⟨rfl, bonus_compile, rfl, rfl⟩

end FactFold
