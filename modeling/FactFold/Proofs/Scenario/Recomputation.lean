import FactFold.Proofs.Accumulator.Initial
import FactFold.Proofs.Accumulator.Units
import FactFold.Proofs.Entries
import FactFold.Proofs.Scenario.Runs

/-!
Without a `reverse` unit the variables are always those of a fold from scratch: `init` is run, then the action
on the payload of each live fact, in the order in which the keys came.
-/

namespace FactFold

def CompiledUnit.varsAfter (u : CompiledUnit) (fact : Option Fact) (tuple : List Fact) (memory : Memory)
    (vars : List Value) : Except FoldError (List Value) := do
  let context ← (u.context fact tuple memory vars).mapError .context
  match u.run context with
  | ⟨.error e, _⟩ => .error (.run e)
  | ⟨.ok _, left⟩ => .ok left.others

def CompiledUnits.scratch (units : CompiledUnits) (tuple : List Fact) (memory : Memory) (payloads : List Value) :
    Except FoldError (List Value) := do
  let vars ← units.init.varsAfter none tuple memory (units.init.plan.others.map fun _ => .null)
  -- no unit sees identities, so all facts may have the same one
  payloads.foldlM (fun vars v => units.action.varsAfter (some ⟨0, v⟩) tuple memory vars) vars

section

variable {u : CompiledUnit} {units : CompiledUnits} {a : Accumulator} {g g' : Group} {fact : Fact}
  {facts tuple : List Fact} {memory : Memory} {vars vars' payloads : List Value}

theorem CompiledUnit.varsAfter_eq_ok {fact : Option Fact} :
    u.varsAfter fact tuple memory vars = .ok vars' ↔
      ∃ k v left, u.context fact tuple memory vars = .ok k ∧ u.run k = ⟨.ok v, left⟩ ∧ left.others = vars' := by
  constructor
  · intro h
    obtain ⟨k, hk, h⟩ := bind_eq_ok.1 h
    rcases hrun : u.run k with ⟨e | v, left⟩
    · simp [hrun] at h
    · simp only [hrun, Except.ok.injEq] at h
      exact ⟨k, v, left, mapError_eq_ok.1 hk, hrun, h⟩
  · rintro ⟨k, v, left, hk, hrun, rfl⟩
    simp only [varsAfter, hk, Except.mapError, ok_bind, hrun]

theorem CompiledUnits.scratch_nil :
    units.scratch tuple memory [] =
      units.init.varsAfter none tuple memory (units.init.plan.others.map fun _ => .null) :=
  bind_pure _

theorem CompiledUnits.scratch_snoc (v : Value) :
    units.scratch tuple memory (payloads ++ [v]) =
      units.scratch tuple memory payloads >>= units.action.varsAfter (some ⟨0, v⟩) tuple memory := by
  simp only [scratch, List.foldlM_append, List.foldlM_cons, List.foldlM_nil, bind_pure, bind_assoc]

namespace Accumulator

theorem reset_scratch (hu : a.compiled = some units) (hothers : units.init.plan.others = a.init.others)
    (h : a.reset g tuple memory = (.ok (), g')) : units.scratch tuple memory [] = .ok g'.vars := by
  obtain ⟨k, v, left, hk, hrun, rfl⟩ := reset_ok hu h
  rw [CompiledUnits.scratch_nil, hothers, CompiledUnit.varsAfter_eq_ok]
  exact ⟨k, v, left, hk, hrun, rfl⟩

theorem accumulate_varsAfter (hu : a.compiled = some units)
    (h : a.accumulate g tuple fact memory = (.ok (), g')) :
    units.action.varsAfter (some ⟨0, fact.value⟩) tuple memory g.vars = .ok g'.vars := by
  rcases accumulate_cases a g tuple fact memory with
    ⟨e, -, he⟩ | ⟨units', k, hu', hk, ⟨reason, left, -, he⟩ | ⟨v, left, hrun, hr⟩⟩
  · simp [he] at h
  · simp [he] at h
  obtain rfl : units = units' := Option.some.inj (hu.symm.trans hu')
  obtain rfl : { g.remember fact.id left with vars := left.others } = g' := by simpa [hr] using h
  exact CompiledUnit.varsAfter_eq_ok.2 ⟨k, v, left, hk, hrun, rfl⟩

theorem accumulate_scratch (hu : a.compiled = some units)
    (hg : units.scratch tuple memory payloads = .ok g.vars)
    (h : a.accumulate g tuple fact memory = (.ok (), g')) :
    units.scratch tuple memory (payloads ++ [fact.value]) = .ok g'.vars := by
  rw [CompiledUnits.scratch_snoc, hg, ok_bind]
  exact accumulate_varsAfter hu h

theorem Folds.scratch (hu : a.compiled = some units) (h : a.Folds tuple memory g facts g')
    (hg : units.scratch tuple memory payloads = .ok g.vars) :
    units.scratch tuple memory (payloads ++ facts.map Fact.value) = .ok g'.vars := by
  induction h generalizing payloads with
  | nil g => simpa using hg
  | cons hfold rest ih =>
    rw [List.map_cons, List.append_cons]
    exact ih (accumulate_scratch hu hg hfold)

end Accumulator

end

namespace Action

/-- The keys and payloads that are live behind an action. A key that comes again comes last, and a payload that
is changed stays where it is. -/
def payloadsAfter (live : List (String × Value)) : Action → List (String × Value)
  | insert key v => live ++ [(key, v)]
  | retract key => live.filter (·.1 ≠ key)
  | update key v => live.map fun entry => if entry.1 = key then (key, v) else entry
  | result _ => live

end Action

def livePayloads (actions : List Action) : List (String × Value) :=
  actions.foldl Action.payloadsAfter []

theorem livePayloads_snoc (actions : List Action) (action : Action) :
    livePayloads (actions ++ [action]) = action.payloadsAfter (livePayloads actions) :=
  List.foldl_append ..

namespace Replay

variable {r r' : Replay} {action : Action} {actions : List Action} {g : Group} {units : CompiledUnits}

def payloads (r : Replay) : List (String × Value) :=
  r.live.map fun entry => (entry.1, entry.2.value)

theorem Did.payloads (h : r.Did action g) (hkeys : (r.live.map Prod.fst).Nodup) :
    ((r.after action g).live.map Prod.fst).Nodup ∧
      (r.after action g).payloads = action.payloadsAfter r.payloads := by
  cases action with
  | insert key v =>
    have hnew : r.live.get? key = none := by
      cases h with
      | insert hnew => exact hnew
      | anew _ hundoes => cases hundoes
    refine ⟨Entries.nodup_put hkeys key _, ?_⟩
    change (r.live.put key ⟨r.next, v⟩).map _ = _
    rw [Entries.put_of_none hnew, List.map_append]
    rfl
  | retract key =>
    refine ⟨Entries.nodup_erase hkeys key, ?_⟩
    change (r.live.erase key).map _ = (r.live.map _).filter _
    rw [Entries.erase_eq_filter hkeys, List.filter_map]
    rfl
  | update key v =>
    obtain ⟨old, hold⟩ : ∃ old, r.live.get? key = some old := by
      cases h with
      | update _ hold => exact ⟨_, hold⟩
      | anew _ _ hkey hold =>
        cases hkey
        exact ⟨_, hold⟩
    have hlive : (r.after (.update key v) g).live = r.live.put key { old with value := v } := by
      simp only [after, Action.liveAfter, hold]
    rw [hlive, Replay.payloads, hlive]
    refine ⟨Entries.nodup_put hkeys key _, ?_⟩
    rw [Entries.put_eq_map hkeys hold, Replay.payloads, Action.payloadsAfter, List.map_map, List.map_map]
    apply List.map_congr_left
    intro entry _
    by_cases hk : entry.1 = key <;> simp [hk]
  | result expected => exact ⟨hkeys, rfl⟩

theorem Reaches.payloads (h : r.Reaches actions r') (hlive : r.live = []) :
    (r'.live.map Prod.fst).Nodup ∧ r'.payloads = livePayloads actions := by
  refine h.invariant (P := fun actions r' => (r'.live.map Prod.fst).Nodup ∧ r'.payloads = livePayloads actions)
    ?_ fun _ hr hdid => ?_
  · rw [hlive, Replay.payloads, hlive]
    exact ⟨List.nodup_nil, rfl⟩
  · rw [livePayloads_snoc, ← hr.2]
    exact hdid.payloads hr.1

def Recomputed (units : CompiledUnits) (r : Replay) : Prop :=
  units.scratch r.tuple r.memory (r.payloads.map Prod.snd) = .ok r.group.vars

theorem payloads_values (r : Replay) : r.payloads.map Prod.snd = (r.live.map Prod.snd).map Fact.value := by
  rw [Replay.payloads, List.map_map, List.map_map]
  rfl

theorem Did.recomputed (h : r.Did action g) (hpayloads : (r.after action g).payloads = action.payloadsAfter r.payloads)
    (hu : r.accumulator.compiled = some units) (hothers : units.init.plan.others = r.accumulator.init.others)
    (hirreversible : r.accumulator.isReversible = false) (hr : r.Recomputed units) :
    (r.after action g).Recomputed units := by
  cases h with
  | insert hnew hfold =>
    rw [Recomputed, hpayloads, Action.payloadsAfter, List.map_append]
    exact Accumulator.accumulate_scratch hu hr hfold
  | anew _ _ _ _ hreset hfolds =>
    -- the new group is made of the live facts alone
    rw [Recomputed, payloads_values]
    exact hfolds.scratch hu (Accumulator.reset_scratch hu hothers hreset)
  | result => exact hr
  | retract hreversible => simp [hirreversible] at hreversible
  | update hreversible => simp [hirreversible] at hreversible

theorem Reaches.recomputed (h : r.Reaches actions r') (hlive : r.live = [])
    (hu : r.accumulator.compiled = some units) (hothers : units.init.plan.others = r.accumulator.init.others)
    (hirreversible : r.accumulator.isReversible = false)
    (hstart : units.scratch r.tuple r.memory [] = .ok r.group.vars) : r'.Recomputed units := by
  refine h.invariant (P := fun _ r' => r'.Recomputed units) ?_ fun h hr hdid => ?_
  · rw [Recomputed, Replay.payloads, hlive]
    exact hstart
  · obtain ⟨haccumulator, -, -⟩ := h.same
    rw [← haccumulator] at hu hothers hirreversible
    exact hdid.recomputed (hdid.payloads (h.payloads hlive).1).2 hu hothers hirreversible hr

end Replay

namespace Scenario

variable {s : Scenario} {registry : Registry} {r : Replay}

theorem Started.others {units : CompiledUnits} (h : s.Started registry units r) :
    units.init.plan.others = r.accumulator.init.others := by
  obtain ⟨-, hinit, -⟩ := Accumulator.units_eq_ok h.made
  rw [(CompiledUnit.compile_eq_ok hinit).1, h.accumulator]

theorem Started.recomputed {units : CompiledUnits} {actions : List Action} {r' : Replay}
    (h : s.Started registry units r) (hreverse : s.clause.reverse = none) (hr : r.Reaches actions r') :
    r'.Recomputed units := by
  have hirreversible : r.accumulator.isReversible = false := by rw [h.isReversible, hreverse]; rfl
  exact hr.recomputed h.live h.compiled h.others hirreversible (Accumulator.reset_scratch h.compiled h.others h.reset)

theorem recomputed_from_scratch (hreverse : s.clause.reverse = none) (hstart : s.start registry = .ok r) :
    ∃ units, s.accumulator.units s.config registry = .ok units ∧
      (∀ actions r', r.Reaches actions r' →
        units.scratch r.tuple r.memory ((livePayloads actions).map Prod.snd) = .ok r'.group.vars ∧
          (r'.live.map fun entry => (entry.1, entry.2.value)) = livePayloads actions ∧
          ∀ index expected, (r'.step index (.result expected)).2 = r') ∧
      ∀ report, s.run registry = .ok report → s.steps.map Step.actions = report.steps.map ([·.action]) ∧
        ∀ i o, report.steps[i]? = some o →
          ∃ r', r.Reaches ((report.steps.take (i + 1)).map (·.action)) r' ∧
            o.vars = (s.clause.vars.map Prod.fst).zip r'.group.vars := by
  obtain ⟨units, hs⟩ := start_ok hstart
  refine ⟨units, hs.made, fun actions r' h => ?_, fun report hrun => ?_⟩
  · obtain ⟨-, htuple, hmemory⟩ := h.same
    obtain ⟨-, hpayloads⟩ := h.payloads hs.live
    have hrecomputed := hs.recomputed hreverse h
    rw [Replay.Recomputed, htuple, hmemory, hpayloads] at hrecomputed
    exact ⟨hrecomputed, hpayloads, fun _ _ => rfl⟩
  · obtain ⟨r₁, hr₁, hrun⟩ := bind_eq_ok.1 hrun
    obtain rfl : r = r₁ := Except.ok.inj (hstart.symm.trans hr₁)
    obtain ⟨os, hos, hreport⟩ := bind_eq_ok.1 hrun
    cases hreport
    obtain ⟨hactions, houtcomes⟩ := Replay.steps_ok .refl hos
    refine ⟨hactions, fun i o ho => ?_⟩
    obtain ⟨r', h, hvars⟩ := houtcomes i o ho
    obtain ⟨haccumulator, -, -⟩ := h.same
    refine ⟨r', h, ?_⟩
    rw [hvars, haccumulator, hs.accumulator]
    rfl

end Scenario

section

open Script (Op)

def digitsClause : Clause where
  vars := [("digits", "Object")]
  locals := [{ identifier := "$value" }]
  init := "digits = 0;"
  action := "digits = digits * 10 + $value;"
  result := "digits"

def digitsScenario : Scenario where
  name := "digits"
  clause := digitsClause
  steps := [{ insert := some ("a", .int 1) }, { insert := some ("b", .int 2) }, { update := some ("a", .int 3) },
    { result := some (some (.int 32)) }]

def digitsUnit (name source : String) (seesFact : Bool) (ops : List Op) (literals : List Value) : CompiledUnit :=
  { sumUnit name source seesFact ops literals with
    plan := digitsClause.plan {} name source seesFact
    inputs := (digitsClause.inputs seesFact).map fun (name, _) => (name, .any) }

def digitsUnits : CompiledUnits where
  init := digitsUnit "digits.init" "digits = 0;" false [.literal 0, .storeSlot 0, .discard] [.int 0]
  action := digitsUnit "digits.action" "digits = digits * 10 + $value;" true
    [.loadSlot 2, .literal 0, .strict (.arith .mul), .loadSlot 1, .strict (.arith .add), .storeSlot 2, .discard]
    [.int 10]
  reverse := none
  result := digitsUnit "digits.result" "digits" false [.loadSlot 0, .ret] []

def digits : Accumulator :=
  { digitsScenario.accumulator with compiled := some digitsUnits }

set_option maxRecDepth 100000 in
theorem digits_units : digitsScenario.accumulator.units digitsScenario.config sumRegistry = .ok digitsUnits := by
  cbv

theorem digitsScenario_start : digitsScenario.start sumRegistry = .ok (freshReplay digits) := by
  rw [Scenario.start, Accumulator.compile, digits_units]
  rfl

def digitsOfTwo : Replay :=
  (((freshReplay digits).step 0 (.insert "a" (.int 1))).2.step 1 (.insert "b" (.int 2))).2

theorem digitsOfTwo_reached :
    (freshReplay digits).Reaches [.insert "a" (.int 1), .insert "b" (.int 2)] digitsOfTwo :=
  (Replay.Reaches.refl.next 0 (.insert "a" (.int 1)) rfl).next 1 (.insert "b" (.int 2)) rfl

theorem recomputed_from_scratch_digits :
    (digitsOfTwo.step 2 (.update "a" (.int 3))).2.group.vars = [.int 32] ∧
      digitsUnits.scratch [] {} [.int 3, .int 2] = .ok [.int 32] ∧
      ∃ report, digitsScenario.run sumRegistry = .ok report ∧ report.passed = true := by
  obtain ⟨units, hunits, hreached, -⟩ := Scenario.recomputed_from_scratch rfl digitsScenario_start
  obtain rfl : digitsUnits = units := Except.ok.inj (digits_units.symm.trans hunits)
  have h := digitsOfTwo_reached.next 2 (.update "a" (.int 3)) rfl
  refine ⟨rfl, (hreached _ _ h).1, ?_⟩
  rw [Scenario.run, digitsScenario_start]
  exact ⟨_, rfl, rfl⟩

end

end FactFold
