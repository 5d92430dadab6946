import FactFold.Proofs.Accumulator.Calls
import FactFold.Proofs.Accumulator.Units
import FactFold.Proofs.Slots

namespace FactFold

namespace Context

variable {k k' : Context} {l : SlotLayout} {values : List Value}

theorem others_length (h : k.shape = (l, l.size)) : k.others.length = l.other := by
  obtain ⟨hlayout, hslots⟩ := Prod.mk.inj h
  rw [others, segment, hlayout, List.length_take, List.length_drop, hslots, SlotLayout.size, SlotLayout.stop,
    SlotLayout.length]
  omega

theorem setOthers_eq_ok (h : k.shape = (l, l.size)) (hl : values.length = l.other) :
    ∃ k', k.setOthers values = .ok k' ∧ k'.shape = (l, l.size) := by
  obtain ⟨hlayout, hslots⟩ := Prod.mk.inj h
  have hsize : l.size = l.start .other + l.other := rfl
  refine ⟨_, if_pos (by rw [hlayout, hl]), Prod.ext hlayout ?_⟩
  simp only [shape, hlayout, hslots, List.length_append, List.length_take, List.length_drop]
  omega

end Context

namespace CompiledUnit

variable {u : CompiledUnit} {k : Context} {fact : Option Fact} {tuple : List Fact} {memory : Memory}
  {vars : List Value}

theorem Valid.context_shape (h : u.Valid) (hk : u.context fact tuple memory vars = .ok k) :
    k.shape = (u.layout, u.layout.size) := by
  have hslots := h.slots_length hk
  obtain ⟨slots, -, rfl⟩ := context_eq_ok.1 hk
  exact Prod.ext rfl (hslots.trans h.inputs_length)

theorem run_shape_of {l : SlotLayout} (h : k.shape = (l, l.size)) {result : Except RunError (Option Value)}
    {left : Context} (hrun : u.run k = ⟨result, left⟩) : left.shape = (l, l.size) := by
  rw [← h, ← u.run_shape k, hrun]

end CompiledUnit

def FoldError.isMiscount : FoldError → Bool
  | context ⟨_, .otherCount _ _⟩ => true
  | _ => false

def FoldError.IsOrdinary (e : FoldError) : Prop :=
  e.isRefusal = false ∧ e.isMiscount = false

theorem FoldError.isOrdinary_run (e : RunError) : IsOrdinary (run e) :=
  ⟨rfl, rfl⟩

theorem CompiledUnit.FailsWith.isOrdinary {u : CompiledUnit} {fact : Option Fact} {tuple : List Fact} {memory : Memory}
    {vars : List Value} {e : FoldError} (h : u.FailsWith fact tuple memory vars e) (hl : vars.length = u.layout.other) :
    e.IsOrdinary := by
  cases h with
  | run => exact FoldError.isOrdinary_run _
  | @context e h =>
    obtain ⟨unit, cause⟩ := e
    refine ⟨rfl, ?_⟩
    cases lacks_of_error (context_eq_error.1 h).1 with
    | others hne => exact absurd hl hne
    | _ => rfl

theorem Group.snapshot?_cleared {g : Group} {vars : List Value} {fact : UInt64} :
    (g.cleared vars).snapshot? fact = none := by
  cases hs : g.snapshots <;> simp [cleared, snapshot?, Entries.get?, hs]

theorem Accumulator.reset_snapshot? {a : Accumulator} {g g' : Group} {tuple : List Fact} {memory : Memory}
    (h : a.reset g tuple memory = (.ok (), g')) (fact : UInt64) : g'.snapshot? fact = none := by
  rcases reset_cases a g tuple memory with ⟨e, he⟩ | ⟨-, -, -, left, -, -, -, hr⟩
  · simp [he] at h
  · obtain rfl : g.cleared left.others = g' := by simpa [hr] using h
    exact Group.snapshot?_cleared

structure Group.Fits (units : CompiledUnits) (g : Group) : Prop where
  vars : g.vars.length = units.action.layout.other
  snapshots : ∀ fact k, g.snapshot? fact = some k → k.shape = (units.action.layout, units.action.layout.size)

structure Accumulator.Made (config : Config) (registry : Registry) (a : Accumulator) (units : CompiledUnits) :
    Prop where
  compiled : a.compiled = some units
  made : a.units config registry = .ok units

namespace Group.Fits

variable {a : Accumulator} {units : CompiledUnits} {g : Group} {fact : UInt64} {k : Context} {vars : List Value}

theorem remember (h : g.Fits units) (hk : k.shape = (units.action.layout, units.action.layout.size)) :
    (g.remember fact k).Fits units := by
  refine ⟨h.vars, fun other k' hk' => ?_⟩
  by_cases hother : other = fact
  · subst hother
    cases hs : g.snapshots with
    | none =>
      rw [remember_of_none hs] at hk'
      exact h.snapshots other k' hk'
    | some s =>
      rw [snapshot?_remember (by rw [hs]; rfl)] at hk'
      cases hk'
      exact hk
  · rw [snapshot?_remember_of_ne hother] at hk'
    exact h.snapshots other k' hk'

theorem forget (h : g.Fits units) (hg : g.Sound a) : (g.forget fact).Fits units := by
  refine ⟨h.vars, fun other k' hk' => ?_⟩
  by_cases hother : other = fact
  · subst hother
    rw [hg.snapshot?_forget] at hk'
    cases hk'
  · rw [snapshot?_forget_of_ne hother] at hk'
    exact h.snapshots other k' hk'

theorem withVars (h : g.Fits units) (hl : vars.length = units.action.layout.other) :
    Fits units { g with vars } :=
  ⟨hl, h.snapshots⟩

end Group.Fits

namespace Accumulator.Made

variable {config : Config} {registry : Registry} {a : Accumulator} {units : CompiledUnits} {g g' : Group}
  {tuple : List Fact} {fact : Fact} {memory : Memory} {e : FoldError}

theorem units_unique {units' : CompiledUnits} (h : a.Made config registry units) (hu : a.compiled = some units') :
    units = units' :=
  Option.some.inj (h.compiled.symm.trans hu)

theorem valid (h : a.Made config registry units) :
    units.init.Valid ∧ units.action.Valid ∧ units.result.Valid := by
  obtain ⟨-, hinit, haction, -, hresult⟩ := units_steps h.made
  exact ⟨(CompiledUnit.compile_eq_ok hinit).2.1, (CompiledUnit.compile_eq_ok haction).2.1,
    (CompiledUnit.compile_eq_ok hresult).2.1⟩

theorem layout_other (h : a.Made config registry units) :
    units.init.layout.other = a.init.others.length ∧ units.action.layout.other = a.init.others.length ∧
      units.result.layout.other = a.init.others.length := by
  obtain ⟨hothers, hinit, haction, -, hresult⟩ := units_steps h.made
  have hcount {p : Plan} {u : CompiledUnit} (hp : p ∈ a.plans) (hu : p.compile config registry = .ok u) :
      u.layout.other = a.init.others.length := by
    obtain ⟨rfl, hvalid, -⟩ := CompiledUnit.compile_eq_ok hu
    rw [hvalid.layout_other, hothers u.plan hp]
  exact ⟨hcount (by simp [plans]) hinit, hcount (by simp [plans]) haction, hcount (by simp [plans]) hresult⟩

theorem nulls_length (h : a.Made config registry units) :
    (a.init.others.map fun _ => Value.null).length = units.init.layout.other := by
  rw [List.length_map, h.layout_other.1]

theorem result_vars (h : a.Made config registry units) (hg : g.Fits units) :
    g.vars.length = units.result.layout.other := by
  obtain ⟨-, haction, hresult⟩ := h.layout_other
  rw [hg.vars, haction, hresult]

theorem reverse_isSome (h : a.Made config registry units) (hreversible : a.isReversible = true) :
    ∃ reverse, units.reverse = some reverse := by
  obtain ⟨p, hp⟩ := Option.isSome_iff_exists.1 hreversible
  exact units_reverse h.made hp

theorem reset_fits (h : a.Made config registry units) (hcall : a.reset g tuple memory = (.ok (), g')) :
    g'.Fits units := by
  rcases reset_cases a g tuple memory with ⟨e, he⟩ | ⟨units', k, v, left, hu, hk, hrun, hr⟩
  · simp [he] at hcall
  obtain rfl := h.units_unique hu
  obtain rfl : g.cleared left.others = g' := by simpa [hr] using hcall
  obtain ⟨hinit, haction, -⟩ := h.layout_other
  have hleft := CompiledUnit.run_shape_of (h.valid.1.context_shape hk) hrun
  refine ⟨(Context.others_length hleft).trans (hinit.trans haction.symm), fun fact k' hk' => ?_⟩
  rw [Group.snapshot?_cleared] at hk'
  cases hk'

theorem reset_error (h : a.Made config registry units) (hcall : (a.reset g tuple memory).1 = .error e) :
    e.IsOrdinary :=
  (reset_failed h.compiled hcall).isOrdinary h.nulls_length

theorem accumulate_fits (h : a.Made config registry units) (hg : g.Fits units) (tuple : List Fact) (fact : Fact)
    (memory : Memory) : (a.accumulate g tuple fact memory).2.Fits units := by
  rcases accumulate_cases a g tuple fact memory with ⟨e, -, he⟩ | ⟨units', k, hu, hk, hcases⟩
  · rw [he]
    exact hg
  obtain rfl := h.units_unique hu
  have hshape := h.valid.2.1.context_shape hk
  rcases hcases with ⟨reason, left, hrun, he⟩ | ⟨v, left, hrun, hr⟩
  · rw [he]
    exact hg.remember (CompiledUnit.run_shape_of hshape hrun)
  · have hleft := CompiledUnit.run_shape_of hshape hrun
    rw [hr]
    exact (hg.remember hleft).withVars (Context.others_length hleft)

theorem accumulate_error (h : a.Made config registry units) (hg : g.Fits units)
    (hcall : (a.accumulate g tuple fact memory).1 = .error e) : e.IsOrdinary :=
  (accumulate_failed h.compiled hcall).isOrdinary hg.vars

theorem reverseFold_fits (h : a.Made config registry units) (hsound : g.Sound a) (hg : g.Fits units)
    (fact : Fact) : (a.reverseFold g fact).2.Fits units := by
  rcases reverseFold_cases a g fact with
    ⟨e, -, he⟩ | ⟨units', reverse, k, hu, -, hs, ⟨e, -, he⟩ | ⟨k', v, left, hset, hrun, hr⟩⟩
  · rw [he]
    exact hg
  · rw [he]
    exact hg.forget hsound
  obtain rfl := h.units_unique hu
  obtain ⟨k'', hset', hshape⟩ := Context.setOthers_eq_ok (hg.snapshots _ k hs) hg.vars
  obtain rfl : k' = k'' := Except.ok.inj (hset.symm.trans hset')
  rw [hr]
  exact (hg.forget hsound).withVars (Context.others_length (CompiledUnit.run_shape_of hshape hrun))

theorem reverseFold_error (h : a.Made config registry units) (hg : g.Fits units)
    (hreversible : a.isReversible = true) {k : Context} (hs : g.snapshot? fact.id = some k)
    (hcall : (a.reverseFold g fact).1 = .error e) : e.IsOrdinary := by
  obtain ⟨reverse, hreverse⟩ := h.reverse_isSome hreversible
  obtain ⟨k', hset, -⟩ := Context.setOthers_eq_ok (hg.snapshots _ k hs) hg.vars
  unfold reverseFold at hcall
  simp only [h.compiled, hreverse, hs, hset] at hcall
  split at hcall
  · cases hcall
    exact FoldError.isOrdinary_run _
  · cases hcall

theorem answer_error (h : a.Made config registry units) (hg : g.Fits units)
    (hcall : a.answer g tuple memory = .error e) : e.IsOrdinary :=
  (answer_failed h.compiled hcall).isOrdinary (h.result_vars hg)

end Accumulator.Made

end FactFold
