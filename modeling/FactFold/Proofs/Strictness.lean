import FactFold.Proofs.Entries
import FactFold.Proofs.Script.Leniency
import FactFold.Proofs.Unit

/-!
Strict typing only rejects. A plan that compiles with it and runs in order does so without it, on the same contexts
and with the same outcome, unless an input is a float: a strict store into such an input widens integers.
-/

namespace FactFold

open Script

theorem Script.Compiler.source_lenient {c : Compiler} {depth : Nat} {text : String} {program : Program}
    (hfloat : c.NoFloat)
    (h : c.source depth text = .ok program) :
    ∃ program', c.lenient.source depth text = .ok program' ∧
      ∀ {σ : Type} [Frame σ] (limit : Nat) (frame : σ) (v : Option Value),
        (program.run limit frame).result = .ok v → program'.run limit frame = program.run limit frame := by
  obtain ⟨ls, hls, h⟩ := bind_eq_ok.1 h
  obtain ⟨ss, hss, h⟩ := bind_eq_ok.1 h
  obtain ⟨program', hlenient, hruns⟩ := Compiler.program_lenient hfloat h
  exact ⟨program', bind_eq_ok.2 ⟨ls, hls, bind_eq_ok.2 ⟨ss, hss, hlenient⟩⟩, hruns⟩

theorem unitSymbols_input {r : Registry} {imports : Imports} {inputs : Entries String ValueType} {name : String}
    {slot : UInt16} {type : ValueType} (h : (unitSymbols r imports inputs).input name = some (slot, type)) :
    (name, type) ∈ inputs := by
  simp only [unitSymbols] at h
  split at h
  · next htype =>
    split at h
    · cases h
      exact Entries.mem_of_get? htype
    · cases h
  · cases h

theorem strict_only_rejects {p : Plan} {config : Config} {r : Registry} {u : CompiledUnit}
    (h : ({ p with strict := true } : Plan).compile config r = .ok u) (hfloat : ∀ input ∈ u.inputs, input.2 ≠ .float) :
    ∃ u', ({ p with strict := false } : Plan).compile config r = .ok u' ∧
      ∀ (fact : Option Fact) (tuple : List Fact) (memory : Memory) (others : List Value) (k : Context)
        (v : Option Value), u.context fact tuple memory others = .ok k → (u.run k).result = .ok v →
          u'.context fact tuple memory others = .ok k ∧ u'.run k = u.run k := by
  obtain ⟨hlevel, layout, imports, inputs, program, hl, hi, hs, hp, rfl⟩ := Plan.compile_iff.1 h
  obtain ⟨program', hlenient, hruns⟩ :=
    Compiler.source_lenient (fun name slot type hinput => hfloat (name, type) (unitSymbols_input hinput)) hp
  refine ⟨⟨{ p with strict := false }, layout, inputs, program', config.maxStackDepth.toNat⟩,
    Plan.compile_iff.2 ⟨hlevel, layout, imports, inputs, program', hl, hi, hs, hlenient, rfl⟩, ?_⟩
  exact fun fact tuple memory others k v hk hv => ⟨hk, hruns _ k v hv⟩

def surplusPlan : Plan where
  name := "surplus"
  expression := "if (amount > limit) \x7b total += amount - limit; boolean over = true; \x7d total"
  globals := ["amount", "limit"]
  others := ["total"]
  inputs := ["amount", "limit", "total"]
  inputTypes := ["int", "int", "int"]

def surplusUnit : CompiledUnit where
  plan := { surplusPlan with strict := true }
  layout := ⟨0, 0, 2, 0, 0, 1⟩
  inputs := [("amount", .integer), ("limit", .integer), ("total", .integer)]
  program :=
    { chunk :=
        { ops := [.loadSlot 0, .loadSlot 1, .strict (.order .gt), .jumpIfFalse 10, .loadSlot 2, .loadSlot 0,
            .loadSlot 1, .strict (.arith .sub), .strict (.arith .add), .checkType 0, .storeSlot 2, .discard,
            .literal 0, .declare 0 (some 1), .loadSlot 2, .ret]
          names := ["over"]
          literals := [.bool true]
          types := [.integer, .boolean]
          strict := true }
      natives := [] }
  maxStackDepth := 1024

def surplusMemory : Memory where
  globals := [("amount", .int 9), ("limit", .int 5)]

def surplusContext : Context where
  unit := "surplus"
  inputs := [("amount", .integer), ("limit", .integer), ("total", .integer)]
  slots := [.int 9, .int 5, .int 3]
  layout := ⟨0, 0, 2, 0, 0, 1⟩
  scope := {}

theorem surplus_compile : ({ surplusPlan with strict := true } : Plan).compile {} ⟨[], [], []⟩ = .ok surplusUnit := by
  cbv

theorem strict_only_rejects_surplus :
    ∃ u', ({ surplusPlan with strict := false } : Plan).compile {} ⟨[], [], []⟩ = .ok u' ∧
      u'.context none [] surplusMemory [.int 3] = .ok surplusContext ∧
      (u'.run surplusContext).result = .ok (some (.int 7)) ∧
      (u'.run surplusContext).frame.slots = [.int 9, .int 5, .int 7] ∧
      (u'.run surplusContext).frame.helpers = [("over", .bool true)] := by
  obtain ⟨u', hcompile, hruns⟩ := strict_only_rejects surplus_compile (by decide)
  obtain ⟨hcontext, hrun⟩ := hruns none [] surplusMemory [.int 3] surplusContext (some (.int 7)) rfl rfl
  refine ⟨u', hcompile, hcontext, ?_⟩
  rw [hrun]
  exact ⟨rfl, rfl, rfl⟩

end FactFold
