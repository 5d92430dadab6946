import Mathlib
import FactFold.Clause

namespace FactFold

/-- An accumulator and a group of its own after any calls. Between two calls the accumulator may be compiled,
lose its code, or get another binding. -/
inductive Reachable : Accumulator → Group → Prop where
  | new (a : Accumulator) : Reachable a a.group
  | reset {a : Accumulator} {g : Group} (h : Reachable a g) (tuple : List Fact) (memory : Memory) :
      Reachable a (a.reset g tuple memory).2
  | accumulate {a : Accumulator} {g : Group} (h : Reachable a g) (tuple : List Fact) (fact : Fact)
      (memory : Memory) : Reachable a (a.accumulate g tuple fact memory).2
  | reverseFold {a : Accumulator} {g : Group} (h : Reachable a g) (fact : Fact) :
      Reachable a (a.reverseFold g fact).2
  | compile {a b : Accumulator} {g : Group} (h : Reachable a g) {config : Config} {r : Registry}
      (hb : a.compile config r = .ok b) : Reachable b g
  | uncompiled {a : Accumulator} {g : Group} (h : Reachable a g) : Reachable a.uncompiled g
  | replaceBinding {a : Accumulator} {g : Group} (h : Reachable a g) (old : UInt32) (binding : Binding) :
      Reachable (a.replaceBinding old binding).1 g

namespace Group

def cleared (g : Group) (vars : List Value) : Group :=
  { g with vars, snapshots := g.snapshots.map fun _ => [] }

def forget (g : Group) (fact : UInt64) : Group :=
  { g with snapshots := g.snapshots.map (·.erase fact) }

def remember (g : Group) (fact : UInt64) (context : Context) : Group :=
  { g with snapshots := g.snapshots.map (·.put fact context) }

structure Sound (a : Accumulator) (g : Group) : Prop where
  names : g.identifiers = a.init.others
  kept : g.snapshots.isSome = a.isReversible
  once : ∀ s, g.snapshots = some s → (s.map Prod.fst).Nodup

variable {g : Group} {fact other : UInt64} {context : Context}

theorem snapshot?_remember (h : g.snapshots.isSome = true) :
    (g.remember fact context).snapshot? fact = some context := by
  obtain ⟨s, hs⟩ := Option.isSome_iff_exists.1 h
  simp [remember, snapshot?, hs, Entries.get?_put]

theorem snapshot?_remember_of_ne (h : other ≠ fact) :
    (g.remember fact context).snapshot? other = g.snapshot? other := by
  cases hs : g.snapshots with
  | none => simp [remember, snapshot?, hs]
  | some s => simp [remember, snapshot?, hs, Entries.get?_put, h]

theorem snapshot?_forget_of_ne (h : other ≠ fact) : (g.forget fact).snapshot? other = g.snapshot? other := by
  cases hs : g.snapshots with
  | none => simp [forget, snapshot?, hs]
  | some s => simp [forget, snapshot?, hs, Entries.get?_erase_of_ne s h]

theorem Sound.snapshot?_forget {a : Accumulator} (h : Sound a g) : (g.forget fact).snapshot? fact = none := by
  cases hs : g.snapshots with
  | none => simp [forget, snapshot?, hs]
  | some s => simp [forget, snapshot?, hs, Entries.get?_erase_self (h.once s hs)]

theorem remember_of_none (h : g.snapshots = none) : g.remember fact context = g := by
  rw [remember, h, Option.map_none, ← h]

end Group

def FoldError.isRefusal : FoldError → Bool
  | notCompiled => true
  | irreversible => true
  | noSnapshot _ => true
  | run _ => false
  | context _ => false

inductive CompiledUnit.FailsWith (u : CompiledUnit) (fact : Option Fact) (tuple : List Fact) (memory : Memory)
    (vars : List Value) : FoldError → Prop where
  | context {e : ContextError} (h : u.context fact tuple memory vars = .error e) :
      FailsWith u fact tuple memory vars (.context e)
  | run {k : Context} {e : RunError} (hk : u.context fact tuple memory vars = .ok k)
      (h : (u.run k).result = .error e) : FailsWith u fact tuple memory vars (.run e)

namespace Accumulator

variable {a : Accumulator} {g : Group} {tuple : List Fact} {fact : Fact} {memory : Memory}

theorem reset_cases (a : Accumulator) (g : Group) (tuple : List Fact) (memory : Memory) :
    (∃ e, a.reset g tuple memory = (.error e, g)) ∨
      ∃ units context v left, a.compiled = some units ∧
        units.init.context none tuple memory (a.init.others.map fun _ => .null) = .ok context ∧
        units.init.run context = ⟨.ok v, left⟩ ∧
        a.reset g tuple memory = (.ok (), g.cleared left.others) := by
  unfold reset
  cases hu : a.compiled with
  | none => exact .inl ⟨.notCompiled, rfl⟩
  | some units =>
    cases hc : units.init.context none tuple memory (a.init.others.map fun _ => .null) with
    | error e => exact .inl ⟨.context e, by simp only [hc]⟩
    | ok context =>
      rcases hr : units.init.run context with ⟨e | v, left⟩
      · exact .inl ⟨.run e, by simp only [hc, hr]⟩
      · exact .inr ⟨units, context, v, left, rfl, hc, hr, by simp only [hc, hr, Group.cleared]⟩

theorem accumulate_cases (a : Accumulator) (g : Group) (tuple : List Fact) (fact : Fact) (memory : Memory) :
    (∃ e, (∀ reason, e ≠ .run reason) ∧ a.accumulate g tuple fact memory = (.error e, g)) ∨
      ∃ units context, a.compiled = some units ∧
        units.action.context (some fact) tuple memory g.vars = .ok context ∧
        ((∃ reason left, units.action.run context = ⟨.error reason, left⟩ ∧
            a.accumulate g tuple fact memory = (.error (.run reason), g.remember fact.id left)) ∨
          ∃ v left, units.action.run context = ⟨.ok v, left⟩ ∧
            a.accumulate g tuple fact memory =
              (.ok (), { g.remember fact.id left with vars := left.others })) := by
  unfold accumulate
  cases hu : a.compiled with
  | none => exact .inl ⟨.notCompiled, by simp, rfl⟩
  | some units =>
    cases hc : units.action.context (some fact) tuple memory g.vars with
    | error e => exact .inl ⟨.context e, by simp, by simp only [hc]⟩
    | ok context =>
      refine .inr ⟨units, context, rfl, hc, ?_⟩
      rcases hr : units.action.run context with ⟨e | v, left⟩
      · exact .inl ⟨e, left, rfl, by simp only [hc, hr, Group.remember]⟩
      · exact .inr ⟨v, left, rfl, by simp only [hc, hr, Group.remember]⟩

theorem reverseFold_cases (a : Accumulator) (g : Group) (fact : Fact) :
    (∃ e, e.isRefusal = true ∧ a.reverseFold g fact = (.error e, g)) ∨
      ∃ units reverse context, a.compiled = some units ∧ units.reverse = some reverse ∧
        g.snapshot? fact.id = some context ∧
        ((∃ e, e.isRefusal = false ∧ a.reverseFold g fact = (.error e, g.forget fact.id)) ∨
          ∃ context' v left, context.setOthers g.vars = .ok context' ∧ reverse.run context' = ⟨.ok v, left⟩ ∧
            a.reverseFold g fact = (.ok (), { g.forget fact.id with vars := left.others })) := by
  unfold reverseFold
  cases hu : a.compiled with
  | none => exact .inl ⟨.notCompiled, rfl, rfl⟩
  | some units =>
    cases hv : units.reverse with
    | none => exact .inl ⟨.irreversible, rfl, by simp only [hv]⟩
    | some reverse =>
      cases hs : g.snapshot? fact.id with
      | none => exact .inl ⟨.noSnapshot fact.id, rfl, by simp only [hv]⟩
      | some context =>
        refine .inr ⟨units, reverse, context, rfl, hv, rfl, ?_⟩
        cases hc : context.setOthers g.vars with
        | error e => exact .inl ⟨.context e, rfl, by simp only [hv, hc, Group.forget]⟩
        | ok context' =>
          rcases hr : reverse.run context' with ⟨e | v, left⟩
          · exact .inl ⟨.run e, rfl, by simp only [hv, hc, hr, Group.forget]⟩
          · exact .inr ⟨context', v, left, rfl, hr, by simp only [hv, hc, hr, Group.forget]⟩

section

variable {units : CompiledUnits} {e : FoldError}

theorem reset_failed (hu : a.compiled = some units) (h : (a.reset g tuple memory).1 = .error e) :
    units.init.FailsWith none tuple memory (a.init.others.map fun _ => .null) e := by
  unfold reset at h
  simp only [hu] at h
  split at h
  · next hk =>
    cases h
    exact .context hk
  · next k hk =>
    split at h
    · next hrun =>
      cases h
      exact .run hk (congrArg Script.Outcome.result hrun)
    · cases h

theorem accumulate_failed (hu : a.compiled = some units) (h : (a.accumulate g tuple fact memory).1 = .error e) :
    units.action.FailsWith (some fact) tuple memory g.vars e := by
  unfold accumulate at h
  simp only [hu] at h
  split at h
  · next hk =>
    cases h
    exact .context hk
  · next k hk =>
    split at h
    · next hrun =>
      cases h
      exact .run hk hrun
    · cases h

theorem answer_failed (hu : a.compiled = some units) (h : a.answer g tuple memory = .error e) :
    units.result.FailsWith none tuple memory g.vars e := by
  unfold answer at h
  simp only [hu] at h
  split at h
  · next hk =>
    cases h
    exact .context hk
  · next k hk =>
    split at h
    · next hrun =>
      cases h
      exact .run hk hrun
    · cases h

end

theorem compile_plans {b : Accumulator} {config : Config} {r : Registry} (h : a.compile config r = .ok b) :
    b.init = a.init ∧ b.isReversible = a.isReversible := by
  unfold compile at h
  split at h
  · rw [Except.ok.inj h]
    exact ⟨rfl, rfl⟩
  · cases hu : a.units config r with
    | error e => simp [hu, Except.map] at h
    | ok units =>
      simp only [hu, Except.map, Except.ok.injEq] at h
      rw [← h]
      exact ⟨rfl, rfl⟩

end Accumulator

open Accumulator

theorem Group.Sound.cleared {a : Accumulator} {g : Group} (h : Sound a g) (vars : List Value) :
    Sound a (g.cleared vars) where
  names := h.names
  kept := by rw [Group.cleared, Option.isSome_map, h.kept]
  once s hs := by
    obtain ⟨_, _, rfl⟩ := Option.map_eq_some_iff.1 hs
    exact List.nodup_nil

theorem Group.Sound.remember {a : Accumulator} {g : Group} (h : Sound a g) (fact : UInt64) (context : Context) :
    Sound a (g.remember fact context) where
  names := h.names
  kept := by rw [Group.remember, Option.isSome_map, h.kept]
  once s hs := by
    obtain ⟨s₀, h₀, rfl⟩ := Option.map_eq_some_iff.1 hs
    exact Entries.nodup_put (h.once s₀ h₀) fact context

theorem Group.Sound.forget {a : Accumulator} {g : Group} (h : Sound a g) (fact : UInt64) :
    Sound a (g.forget fact) where
  names := h.names
  kept := by rw [Group.forget, Option.isSome_map, h.kept]
  once s hs := by
    obtain ⟨s₀, h₀, rfl⟩ := Option.map_eq_some_iff.1 hs
    exact Entries.nodup_erase (h.once s₀ h₀) fact

theorem Group.Sound.withVars {a : Accumulator} {g : Group} (h : Sound a g) (vars : List Value) :
    Sound a { g with vars } :=
  ⟨h.names, h.kept, h.once⟩

theorem Reachable.sound {a : Accumulator} {g : Group} (h : Reachable a g) : g.Sound a := by
  induction h with
  | new a =>
    refine ⟨rfl, ?_, ?_⟩
    · cases hr : a.isReversible <;> simp [group, hr]
    · intro s hs
      simp only [group] at hs
      split at hs
      · rw [← Option.some.inj hs]
        exact List.nodup_nil
      · cases hs
  | @reset a g _ tuple memory ih =>
    rcases reset_cases a g tuple memory with ⟨e, h⟩ | ⟨_, _, _, left, _, _, _, h⟩
    · rw [h]
      exact ih
    · rw [h]
      exact ih.cleared left.others
  | @accumulate a g _ tuple fact memory ih =>
    rcases accumulate_cases a g tuple fact memory with
      ⟨e, _, h⟩ | ⟨_, _, _, _, ⟨_, left, _, h⟩ | ⟨_, left, _, h⟩⟩
    · rw [h]
      exact ih
    · rw [h]
      exact ih.remember fact.id left
    · rw [h]
      exact (ih.remember fact.id left).withVars left.others
  | @reverseFold a g _ fact ih =>
    rcases reverseFold_cases a g fact with ⟨e, _, h⟩ | ⟨_, _, _, _, _, _, ⟨e, _, h⟩ | ⟨_, _, left, _, _, h⟩⟩
    · rw [h]
      exact ih
    · rw [h]
      exact ih.forget fact.id
    · rw [h]
      exact (ih.forget fact.id).withVars left.others
  | compile _ hb ih =>
    obtain ⟨hinit, hreversible⟩ := compile_plans hb
    exact ⟨by rw [ih.names, hinit], ih.kept.trans hreversible.symm, ih.once⟩
  | uncompiled _ ih => exact ⟨ih.names, ih.kept, ih.once⟩
  | replaceBinding _ old binding ih =>
    exact ⟨ih.names, by rw [ih.kept, isReversible, isReversible, Accumulator.replaceBinding, Option.isSome_map,
      Option.isSome_map], ih.once⟩

section

open Script (Op)

def sumClause : Clause where
  vars := [("total", "Object")]
  locals := [{ identifier := "$value" }]
  init := "total = 0;"
  action := "total += $value;"
  reverse := some "total -= $value;"
  result := "total"

def sumRegistry : Registry :=
  ⟨[("Object", .any)], [], []⟩

def sumUnit (name source : String) (seesFact : Bool) (ops : List Op) (literals : List Value) :
    CompiledUnit where
  plan := sumClause.plan {} name source seesFact
  layout := if seesFact then ⟨1, 0, 0, 0, 1, 1⟩ else ⟨0, 0, 0, 0, 0, 1⟩
  inputs := (sumClause.inputs seesFact).map fun (name, _) => (name, .any)
  program := ⟨{ ops, literals, strict := false }, []⟩
  maxStackDepth := 1024

def sumUnits : CompiledUnits where
  init := sumUnit "sum.init" "total = 0;" false [.literal 0, .storeSlot 0, .discard] [.int 0]
  action := sumUnit "sum.action" "total += $value;" true
    [.loadSlot 2, .loadSlot 1, .strict (.arith .add), .storeSlot 2, .discard] []
  reverse := some (sumUnit "sum.reverse" "total -= $value;" true
    [.loadSlot 2, .loadSlot 1, .strict (.arith .sub), .storeSlot 2, .discard] [])
  result := sumUnit "sum.result" "total" false [.loadSlot 0, .ret] []

def sum : Accumulator :=
  { sumClause.accumulator {} "sum" with compiled := some sumUnits }

set_option maxRecDepth 100000 in
theorem sum_units : (sumClause.accumulator {} "sum").units {} sumRegistry = .ok sumUnits := by
  cbv

theorem sum_compile : (sumClause.accumulator {} "sum").compile {} sumRegistry = .ok sum := by
  rw [Accumulator.compile, sum_units]
  rfl

def sumStart : Group :=
  (sum.reset sum.group [] {}).2

theorem sumStart_reachable : Reachable sum sumStart :=
  (Reachable.new sum).reset [] {}

end

end FactFold
