import FactFold.Proofs.Accumulator.Initial
import FactFold.Proofs.Accumulator.Maintenance
import FactFold.Proofs.Clause
import FactFold.Proofs.Scenario.Live
import FactFold.Proofs.Scenario.Runs

namespace FactFold

open Script

namespace Scenario

variable {s : Scenario} {registry : Registry} {r r' : Replay}

def irreversible (s : Scenario) : Scenario :=
  { s with clause := { s.clause with reverse := none } }

/-- The clause sets variables to integers, adds to them what depends on no variable, and takes the same away
in a reversal. What is added is an integer for every payload of the steps. -/
structure Summing (registry : Registry) (s : Scenario) (r : Replay) (units : CompiledUnits)
    (consts pairs back : Entries String Expr) : Prop where
  started : s.start registry = .ok r
  compiled : r.accumulator.compiled = some units
  sets : ∃ ss, s.accumulator.init.Parses s.config.maxNestingDepth.toNat ss ∧ Sets consts ss
  constants : ∀ const ∈ consts,
    const.1 ∈ s.clause.vars.map Prod.fst ∧ IntegerConstant (units.init.compiler registry) const.2
  adds : ∃ ss, s.accumulator.action.Parses s.config.maxNestingDepth.toNat ss ∧ Updates .add pairs ss
  subtracts : ∃ p ss, s.accumulator.reverse = some p ∧ p.Parses s.config.maxNestingDepth.toNat ss ∧
    Updates .sub back ss
  perm : back.Perm pairs
  distinct : (pairs.map Prod.fst).Nodup
  initialized : ∀ x ∈ pairs.map Prod.fst, x ∈ consts.map Prod.fst
  within : ∀ pair ∈ pairs, pair.2.Within (· ∉ s.clause.vars.map Prod.fst) fun _ => True
  integers : ∀ step ∈ s.steps, ∀ action ∈ step.actions, ∀ v ∈ action.payload?,
    units.action.Integers registry pairs r.tuple r.memory v

namespace Summing

variable {units : CompiledUnits} {consts pairs back : Entries String Expr}

theorem start (h : s.Summing registry r units consts pairs back) : s.Started registry units r := by
  obtain ⟨units', hstart⟩ := start_ok h.started
  obtain rfl : units' = units := Option.some.inj (hstart.compiled.symm.trans h.compiled)
  exact hstart

theorem isReversible (h : s.Summing registry r units consts pairs back) : r.accumulator.isReversible = true := by
  obtain ⟨p, ss, hp, -⟩ := h.subtracts
  rw [h.start.accumulator, Accumulator.isReversible, hp]
  rfl

theorem startAnew (h : s.Summing registry r units consts pairs back)
    (hr' : s.irreversible.start registry = .ok r') :
    s.irreversible.Started registry { units with reverse := none } r' := by
  obtain ⟨units', hstart⟩ := start_ok hr'
  have hunits := Accumulator.units_irreversible h.start.made
  obtain rfl : { units with reverse := none } = units' := Except.ok.inj (hunits.symm.trans hstart.made)
  exact hstart

theorem beside (h : s.Summing registry r units consts pairs back)
    (h' : s.irreversible.Started registry { units with reverse := none } r') : r.Beside r' where
  init := by
    rw [h'.accumulator, h.start.accumulator]
    rfl
  tuple := by
    rw [h'.tuple, h.start.tuple]
    rfl
  memory := by
    rw [h'.memory, h.start.memory]
    rfl
  live := h'.live.trans h.start.live.symm
  next := by
    rw [h'.next, h.start.next]
    rfl
  answers := by
    intro g g' hg
    simp only [Accumulator.answer, h.compiled, h'.compiled, hg]

theorem updating (h : s.Summing registry r units consts pairs back) (hproper : registry.Proper)
    (hf : s.config.strict = true → ∀ x ∈ pairs.map Prod.fst, units.action.inputs.get? x ≠ some .float)
    {p : Plan} {u : CompiledUnit} {name source : String} {op : ArithOp} {listed : Entries String Expr}
    {ss : List Stmt}
    (hp : p = s.clause.plan s.config name source true) (hcompile : p.compile s.config registry = .ok u)
    (hinputs : u.inputs = units.action.inputs) (hperm : listed.Perm pairs)
    (hparses : p.Parses s.config.maxNestingDepth.toNat ss) (hupdates : Updates op listed ss) :
    u.Updating registry (s.clause.vars.map Prod.fst) op listed := by
  obtain ⟨hplan, hvalid, ss', hparses', hprogram⟩ := CompiledUnit.compile_eq_ok hcompile
  obtain rfl := hparses.unique hparses'
  have hothers : u.plan.others = s.clause.vars.map Prod.fst := by rw [hplan, hp]; rfl
  have hkeys : (listed.map Prod.fst).Perm (pairs.map Prod.fst) := hperm.map _
  refine ⟨hvalid, hothers, ⟨hkeys.nodup_iff.2 h.distinct, ?_, ?_, ?_⟩, ⟨ss, hupdates, hprogram⟩, ?_⟩
  · intro x hx
    obtain ⟨const, hconst, rfl⟩ := List.mem_map.1 (h.initialized x (hkeys.mem_iff.1 hx))
    rw [hothers]
    exact (h.constants const hconst).1
  · intro hstrict x hx
    rw [hplan, hp] at hstrict
    rw [hinputs]
    exact hf hstrict x (hkeys.mem_iff.1 hx)
  · intro pair hpair
    rw [hothers]
    exact h.within pair (hperm.mem_iff.1 hpair)
  · apply regular_of_proper
    intro v hv
    obtain ⟨pair, hpair, hv⟩ := List.mem_flatMap.1 hv
    exact Compiler.exprLiterals_proper (fun n _ => CompiledUnit.properName hproper hcompile n)
      (h.within pair (hperm.mem_iff.1 hpair)) v hv

theorem inverse (h : s.Summing registry r units consts pairs back) (hproper : registry.Proper)
    (hf : s.config.strict = true → ∀ x ∈ pairs.map Prod.fst, units.action.inputs.get? x ≠ some .float)
    (horder : back = pairs ∨ Faithful (units.action.literals registry pairs)) :
    ∃ reverse, Inverse registry r.accumulator units reverse pairs back := by
  have hr := h.start.accumulator
  obtain ⟨-, -, haction, hreverse⟩ := Accumulator.units_eq_ok h.start.made
  obtain ⟨ss, hparses, hadds⟩ := h.adds
  obtain ⟨p, ss', hp, hparses', hsubtracts⟩ := h.subtracts
  obtain ⟨source, hsource⟩ : ∃ source, p = s.clause.plan s.config (s.name ++ ".reverse") source true := by
    obtain ⟨source, -, hsource⟩ := Option.map_eq_some_iff.1 hp
    exact ⟨source, hsource.symm⟩
  obtain ⟨reverse, hsome⟩ := Accumulator.units_reverse h.start.made hp
  obtain ⟨p', hp', hcompile, hinputs, hlayout⟩ := hreverse reverse hsome
  obtain rfl : p = p' := Option.some.inj (hp.symm.trans hp')
  have hcompiler : reverse.compiler registry = units.action.compiler registry :=
    Clause.compiler_eq (CompiledUnit.compile_eq_ok haction).1 ((CompiledUnit.compile_eq_ok hcompile).1.trans hsource)
      hinputs
  refine ⟨reverse, h.compiled, hsome, ?_, ?_, hinputs, hlayout, h.perm, horder, fun pair hpair => ?_⟩
  · rw [hr]
    exact h.updating hproper hf rfl haction rfl (.refl _) hparses hadds
  · rw [hr]
    exact h.updating hproper hf hsource hcompile hinputs h.perm hparses' hsubtracts
  · rw [hr]
    refine (h.within pair hpair).mono (fun n hn => ⟨hn, ?_⟩) fun f _ => ?_
    · rw [hcompiler]
      exact .refl _ n
    · rw [SameFunction, hcompiler]

theorem additive (h : s.Summing registry r units consts pairs back) (hproper : registry.Proper)
    (hf : s.config.strict = true → ∀ x ∈ pairs.map Prod.fst, units.action.inputs.get? x ≠ some .float)
    {a : Accumulator} {units' : CompiledUnits} (ha : a.init = r.accumulator.init)
    (hcompiled : a.compiled = some units')
    (hi : units'.init = units.init) (haction : units'.action = units.action)
    (hinverse : a.isReversible = true → ∃ units' reverse back, units'.action = units.action ∧
      Inverse registry a units' reverse pairs back) :
    Additive registry a r.tuple r.memory units.action pairs r.group.vars := by
  have hr := h.start.accumulator
  obtain ⟨-, hinit, hcompile, -⟩ := Accumulator.units_eq_ok h.start.made
  obtain ⟨hplan, hvalid, ss, hparses, hprogram⟩ := CompiledUnit.compile_eq_ok hinit
  obtain ⟨ss', hparses', hsets⟩ := h.sets
  obtain rfl := hparses.unique hparses'
  have hothers : units.init.plan.others = s.clause.vars.map Prod.fst := by rw [hplan]; rfl
  have hnames' : r.accumulator.init.others = s.clause.vars.map Prod.fst := by rw [hr]; rfl
  have hnames : a.init.others = s.clause.vars.map Prod.fst := by rw [ha, hnames']
  obtain ⟨ss', hparses', hadds⟩ := h.adds
  refine ⟨⟨units', hcompiled, haction⟩, ?_, hinverse, fun g₁ g₂ hreset₂ => ?_, ?_, fun x hx => ?_⟩
  · rw [hnames]
    exact h.updating hproper hf rfl hcompile rfl (.refl _) hparses' hadds
  · exact Accumulator.reset_vars h.compiled hcompiled hi ha h.start.reset hreset₂
  · rw [Accumulator.reset_length h.compiled hvalid (hothers.trans hnames'.symm) h.start.reset, hnames, hnames']
  · obtain ⟨k, v, left, hk, hrun, hg⟩ := Accumulator.reset_ok h.compiled h.start.reset
    obtain ⟨front, hsplits, -⟩ := hvalid.context hk
    have hconsts (const : String × Expr) (hconst : const ∈ consts) :
        const.1 ∈ units.init.plan.others ∧ IntegerConstant (units.init.compiler registry) const.2 := by
      rw [hothers]
      exact h.constants const hconst
    obtain ⟨const, hconst, hname⟩ := List.mem_map.1 (h.initialized x hx)
    have hvariable : x ∈ s.clause.vars.map Prod.fst := hname ▸ (h.constants const hconst).1
    obtain ⟨n, hn⟩ := hvalid.run_sets hprogram hsets hconsts hsplits hrun (h.initialized x hx) fun hstrict => by
      rw [Clause.variable_type hcompile hinit hvariable]
      rw [hplan] at hstrict
      exact hf hstrict x hx
    refine ⟨n, ?_⟩
    rw [hnames, ← hothers, hg]
    exact hn

end Summing

theorem reversal_agrees {units : CompiledUnits} {consts pairs back : Entries String Expr}
    (h : s.Summing registry r units consts pairs back)
    (hf : s.config.strict = true → ∀ x ∈ pairs.map Prod.fst, units.action.inputs.get? x ≠ some .float)
    (horder : back = pairs ∨ Faithful (units.action.literals registry pairs)) (hproper : registry.Proper)
    (hsteps : s.steps.length ≤ UInt64.size) {report report' : Report} (hrun : s.run registry = .ok report)
    (hrun' : s.irreversible.run registry = .ok report') :
    report.reversible = true ∧ (∀ o ∈ report.steps, o.recomputed = false) ∧
      report' = { report with
        reversible := false
        steps := report.steps.map fun o => { o with recomputed := o.action.undoes } } := by
  obtain ⟨r₁, hr₁, hrun⟩ := bind_eq_ok.1 hrun
  obtain ⟨r', hr', hrun'⟩ := bind_eq_ok.1 hrun'
  obtain rfl : r = r₁ := Except.ok.inj (h.started.symm.trans hr₁)
  obtain ⟨os, hos, hreport⟩ := bind_eq_ok.1 hrun
  obtain ⟨os', hos', hreport'⟩ := bind_eq_ok.1 hrun'
  cases hreport
  cases hreport'
  have hstart' := h.startAnew hr'
  have hbeside := h.beside hstart'
  obtain ⟨reverse, hinverse⟩ := h.inverse hproper hf horder
  have hirreversible : r'.accumulator.isReversible = false := by
    rw [hstart'.accumulator]
    rfl
  have hadditive : Additive registry r.accumulator r.tuple r.memory units.action pairs r.group.vars :=
    h.additive hproper hf rfl h.compiled rfl rfl fun _ => ⟨units, reverse, back, rfl, hinverse⟩
  have hadditive' : Additive registry r'.accumulator r'.tuple r'.memory units.action pairs r.group.vars := by
    rw [hbeside.tuple, hbeside.memory]
    apply h.additive hproper hf hbeside.init hstart'.compiled rfl rfl
    intro hreversible
    rw [hirreversible] at hreversible
    cases hreversible
  have hvars : r'.group.vars = r.group.vars := hadditive'.restart _ _ hstart'.reset
  have hbalanced := Replay.start_balanced hadditive rfl h.start.live
  have hbalanced' := Replay.start_balanced hadditive' hvars hstart'.live
  rw [hbeside.next] at hbalanced'
  obtain ⟨hfalse, hmap⟩ := Replay.steps_agree hbalanced hbalanced' hadditive hadditive' hbeside h.isReversible
    hirreversible (by omega) h.integers hos hos'
  exact ⟨h.isReversible, hfalse, by rw [hirreversible, hmap]; rfl⟩

end Scenario

def sumConsts : Entries String Expr :=
  [("total", .literal (.int 0) ⟨8, 9⟩)]

theorem sum_summing {s : Scenario} {r : Replay} {units : CompiledUnits} {type : String}
    (hclause : s.clause = { sumClause with vars := [("total", type)] }) (hdepth : s.config.maxNestingDepth = 256)
    (hstarted : s.start sumRegistry = .ok r) (hcompiled : r.accumulator.compiled = some units)
    (hvalue : ∀ id n w k, units.action.context (some ⟨id, .int n⟩) r.tuple r.memory [w] = .ok k →
      units.action.value sumRegistry k (.name "$value" ⟨9, 15⟩) = .ok (.int n))
    (hints : ∀ step ∈ s.steps, ∀ action ∈ step.actions, ∀ v ∈ action.payload?, ∃ n, v = .int n) :
    s.Summing sumRegistry r units sumConsts sumPairs sumPairs where
  started := hstarted
  compiled := hcompiled
  sets := by
    rw [Scenario.accumulator, hclause, hdepth]
    exact ⟨[.assign "total" .set (.literal (.int 0) ⟨8, 9⟩) ⟨0, 9⟩], .of_toOption (by cbv), .cons .nil⟩
  constants := by
    intro const hconst
    rw [List.mem_singleton.1 hconst, hclause]
    exact ⟨by simp, .literal 0 ⟨8, 9⟩⟩
  adds := by
    rw [Scenario.accumulator, hclause, hdepth]
    exact sum_mirrored.adds
  subtracts := by
    obtain ⟨ss, hparses, hupdates⟩ := sum_mirrored.subtracts
    rw [Scenario.accumulator, hclause, hdepth]
    exact ⟨_, ss, rfl, hparses, hupdates⟩
  perm := .refl _
  distinct := by decide
  initialized := by decide
  within := by
    intro pair hpair
    rw [List.mem_singleton.1 hpair, hclause]
    exact (by decide : "$value" ∉ ["total"])
  integers := by
    intro step hstep action haction v hv id vars k hk pair hpair
    obtain ⟨n, rfl⟩ := hints step hstep action haction v hv
    obtain ⟨units', hstart⟩ := Scenario.start_ok hstarted
    obtain rfl : units' = units := Option.some.inj (hstart.compiled.symm.trans hcompiled)
    obtain ⟨-, -, hcompile, -⟩ := Accumulator.units_eq_ok hstart.made
    obtain ⟨hplan, hvalid, -⟩ := CompiledUnit.compile_eq_ok hcompile
    obtain ⟨front, hsplits, -⟩ := hvalid.context hk
    have hone : vars.length = 1 := by
      rw [hsplits.vars, hvalid.layout_other, hplan, Scenario.accumulator, hclause]
      rfl
    obtain ⟨w, rfl⟩ := List.length_eq_one_iff.1 hone
    rw [List.mem_singleton.1 hpair]
    exact ⟨n, hvalue id n w k hk⟩

theorem sumRegistry_proper : sumRegistry.Proper := by
  intro entry hentry
  cases hentry

def sumScenario : Scenario where
  name := "sum"
  clause := sumClause
  steps := [{ insert := some ("a", .int 7) }, { insert := some ("b", .int 5) }, { update := some ("a", .int 1) },
    { retract := some "b" }, { result := some (some (.int 1)) }]

def Accumulator.withoutReverse (a : Accumulator) : Accumulator :=
  { a with reverse := none, compiled := a.compiled.map fun units => { units with reverse := none } }

theorem sumScenario_start : sumScenario.start sumRegistry = .ok (freshReplay sum) := by
  have hcompile : sumScenario.accumulator.compile sumScenario.config sumRegistry = .ok sum := sum_compile
  rw [Scenario.start, hcompile]
  rfl

theorem sumScenario_startAnew :
    sumScenario.irreversible.start sumRegistry = .ok (freshReplay sum.withoutReverse) := by
  have hunits : sumScenario.irreversible.accumulator.units sumScenario.irreversible.config sumRegistry =
      .ok { sumUnits with reverse := none } := Accumulator.units_irreversible sum_units
  rw [Scenario.start, Accumulator.compile, hunits]
  rfl

theorem sumScenario_summing :
    sumScenario.Summing sumRegistry (freshReplay sum) sumUnits sumConsts sumPairs sumPairs := by
  refine sum_summing rfl rfl sumScenario_start rfl (fun id n w k hk => ?_) fun step hstep action haction v hv => ?_
  · cases hk
    rfl
  · simp only [sumScenario, List.mem_cons, List.not_mem_nil, or_false] at hstep
    rcases hstep with rfl | rfl | rfl | rfl | rfl <;> obtain rfl := List.mem_singleton.1 haction <;> cases hv <;>
      exact ⟨_, rfl⟩

theorem reversal_agrees_sum :
    ∃ report report', sumScenario.run sumRegistry = .ok report ∧
      sumScenario.irreversible.run sumRegistry = .ok report' ∧ report.passed = true ∧
        report.reversible = true ∧ (∀ o ∈ report.steps, o.recomputed = false) ∧
          report' = { report with
            reversible := false
            steps := report.steps.map fun o => { o with recomputed := o.action.undoes } } := by
  obtain ⟨report, hrun, hpassed⟩ : ∃ report, sumScenario.run sumRegistry = .ok report ∧ report.passed = true := by
    rw [Scenario.run, sumScenario_start]
    exact ⟨_, rfl, rfl⟩
  obtain ⟨report', hrun'⟩ : ∃ report', sumScenario.irreversible.run sumRegistry = .ok report' := by
    rw [Scenario.run, sumScenario_startAnew]
    exact ⟨_, rfl⟩
  exact ⟨report, report', hrun, hrun', hpassed,
    Scenario.reversal_agrees sumScenario_summing (by decide) (.inl rfl) sumRegistry_proper (by decide) hrun hrun'⟩

def wideScenario : Scenario where
  name := "sum"
  config := { strict := true }
  clause := { sumClause with vars := [("total", "double")] }
  steps := [{ insert := some ("a", .int 9007199254740993) }, { insert := some ("b", .int 1) },
    { retract := some "a" }, { result := some (some (.float 1)) }]

def wideUnit (name source : String) (seesFact : Bool) (ops : List Op) (literals : List Value)
    (types : List ValueType) : CompiledUnit where
  plan := wideScenario.clause.plan wideScenario.config name source seesFact
  layout := if seesFact then ⟨1, 0, 0, 0, 1, 1⟩ else ⟨0, 0, 0, 0, 0, 1⟩
  inputs := if seesFact then [("$fact", .any), ("$value", .any), ("total", .float)] else [("total", .float)]
  program := ⟨{ ops, literals, types, strict := true }, []⟩
  maxStackDepth := 1024

def wideUnits : CompiledUnits where
  init := wideUnit "sum.init" "total = 0;" false [.literal 0, .checkType 0, .storeSlot 0, .discard] [.int 0] [.float]
  action := wideUnit "sum.action" "total += $value;" true
    [.loadSlot 2, .loadSlot 1, .strict (.arith .add), .checkType 0, .storeSlot 2, .discard] [] [.float]
  reverse := some (wideUnit "sum.reverse" "total -= $value;" true
    [.loadSlot 2, .loadSlot 1, .strict (.arith .sub), .checkType 0, .storeSlot 2, .discard] [] [.float])
  result := wideUnit "sum.result" "total" false [.loadSlot 0, .ret] [] []

def wideSum : Accumulator :=
  { wideScenario.accumulator with compiled := some wideUnits }

set_option maxRecDepth 100000 in
theorem wide_units : wideScenario.accumulator.units wideScenario.config sumRegistry = .ok wideUnits := by
  cbv

theorem wideScenario_start : wideScenario.start sumRegistry = .ok (freshReplay wideSum) := by
  rw [Scenario.start, Accumulator.compile, wide_units]
  rfl

theorem wideScenario_startAnew :
    wideScenario.irreversible.start sumRegistry = .ok (freshReplay wideSum.withoutReverse) := by
  have hunits : wideScenario.irreversible.accumulator.units wideScenario.irreversible.config sumRegistry =
      .ok { wideUnits with reverse := none } := Accumulator.units_irreversible wide_units
  rw [Scenario.start, Accumulator.compile, hunits]
  rfl

theorem wideScenario_summing :
    wideScenario.Summing sumRegistry (freshReplay wideSum) wideUnits sumConsts sumPairs sumPairs := by
  refine sum_summing rfl rfl wideScenario_start rfl (fun id n w k hk => ?_) fun step hstep action haction v hv => ?_
  · cases hk
    rfl
  · simp only [wideScenario, List.mem_cons, List.not_mem_nil, or_false] at hstep
    rcases hstep with rfl | rfl | rfl | rfl <;> obtain rfl := List.mem_singleton.1 haction <;> cases hv <;>
      exact ⟨_, rfl⟩

set_option maxRecDepth 100000 in
theorem widened_reversal_disagrees :
    wideScenario.Summing sumRegistry (freshReplay wideSum) wideUnits sumConsts sumPairs sumPairs ∧
      ∃ report report', wideScenario.run sumRegistry = .ok report ∧
        wideScenario.irreversible.run sumRegistry = .ok report' ∧
          report.steps.map StepOutcome.matched? = [none, none, none, some false] ∧
            report'.steps.map StepOutcome.matched? = [none, none, none, some true] := by
  refine ⟨wideScenario_summing, ?_⟩
  rw [Scenario.run, wideScenario_start, Scenario.run, wideScenario_startAnew]
  exact ⟨_, _, rfl, rfl, rfl, rfl⟩

end FactFold
