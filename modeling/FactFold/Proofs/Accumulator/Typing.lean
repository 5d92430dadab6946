import FactFold.Proofs.Accumulator.Replays
import FactFold.Proofs.Script.TypedWrites

namespace FactFold

open Script

namespace CompiledUnit

def varType? (u : CompiledUnit) (i : Nat) : Option ValueType :=
  (u.inputs[u.layout.start .other + i]?).map Prod.snd

def Takes (u : CompiledUnit) (vars : List Value) : Prop :=
  ∀ i type v, u.varType? i = some type → vars[i]? = some v → type.Holds v

variable {u : CompiledUnit} {r : Registry} {i : Nat} {name : String} {slot : UInt16} {type : ValueType}

theorem takes_nulls {α : Type} (u : CompiledUnit) (names : List α) : u.Takes (names.map fun _ => .null) := by
  intro i type v _ hv
  rw [List.getElem?_map, Option.map_eq_some_iff] at hv
  obtain ⟨_, -, rfl⟩ := hv
  exact type.holds_null

theorem takes_congr {u' : CompiledUnit} {vars : List Value} (h : ∀ i, u'.varType? i = u.varType? i)
    (ht : u.Takes vars) : u'.Takes vars :=
  fun i type v hi hv => ht i type v (h i ▸ hi) hv

theorem Valid.inputs_nodup (h : u.Valid) : (u.inputs.map Prod.fst).Nodup := by
  rw [h.names]
  exact h.once

theorem Valid.inputs_getElem? (h : u.Valid) (hp : u.inputs.position? name = some i)
    (ht : u.inputs.get? name = some type) : u.inputs[i]? = some (name, type) := by
  obtain ⟨hlt, hname, -⟩ := List.findIdx?_eq_some_iff_getElem.1 hp
  have hget := Entries.get?_eq_some_of_mem h.inputs_nodup (List.getElem_mem hlt)
  rw [← eq_of_beq hname, ht, Option.some.injEq] at hget
  rw [List.getElem?_eq_getElem hlt, eq_of_beq hname, hget]

theorem Valid.inputs_slot (h : u.Valid) (hi : (u.compiler r).symbols.input name = some (slot, type)) :
    u.inputs[slot.toNat]? = some (name, type) := by
  rw [input_eq] at hi
  split at hi
  · next i type' hp ht =>
    split at hi
    · next hlt =>
      cases hi
      have hslot : (UInt16.ofNat i).toNat = i := UInt16.toNat_ofNat_of_lt hlt
      rw [hslot]
      exact h.inputs_getElem? hp ht
    · cases hi
  · cases hi

theorem Valid.varType?_eq (h : u.Valid) (hi : u.plan.others[i]? = some name) : u.varType? i = u.inputs.get? name := by
  have hname : (u.inputs.map Prod.fst)[u.layout.start .other + i]? = some name := by
    rw [h.names, h.input_of_other hi]
  rw [List.getElem?_map, Option.map_eq_some_iff] at hname
  obtain ⟨⟨name', type⟩, hinput, rfl⟩ := hname
  rw [varType?, hinput, Entries.get?_eq_some_of_mem h.inputs_nodup (List.mem_of_getElem? hinput)]
  rfl

theorem Valid.varType?_eq_none (h : u.Valid) (hi : u.plan.others[i]? = none) : u.varType? i = none := by
  have hlength : u.inputs.length = u.layout.size := by rw [← h.inputs_length, ← h.names, List.length_map]
  rw [List.getElem?_eq_none_iff, ← h.layout_other] at hi
  have hsize : u.layout.size = u.layout.start .other + u.layout.other := rfl
  rw [varType?, List.getElem?_eq_none (by omega)]
  rfl

end CompiledUnit

namespace Context

structure Typed (k : Context) (u : CompiledUnit) : Prop where
  suits : k.Suits u
  takes : u.Takes k.others

variable {k k' : Context} {u : CompiledUnit} {r : Registry} {i slot : Nat} {type : ValueType} {v : Value}

theorem Suits.others_getElem? (h : k.Suits u) (i : Nat) :
    k.others[i]? = k.slots[u.layout.start .other + i]? := by
  obtain ⟨hlayout, hslots⟩ := Prod.mk.inj h.shape
  have hsize : u.layout.size = u.layout.start .other + u.layout.length .other := rfl
  rw [others, segment, hlayout, List.take_of_length_le (by rw [List.length_drop]; omega), List.getElem?_drop]

theorem Typed.withScope (h : k.Typed u) (scope : ScopeChain) : Typed { k with scope } u :=
  ⟨⟨h.suits.inputs, h.suits.shape⟩, h.takes⟩

theorem Typed.writeSlot (h : k.Typed u) (hs : ∀ name type, u.inputs[slot]? = some (name, type) → type.Holds v)
    (hk : k.writeSlot slot v = .ok k') : k'.Typed u := by
  have hsuits : k'.Suits u :=
    ⟨(inputs_writeSlot hk).trans h.suits.inputs, (shape_writeSlot hk).trans h.suits.shape⟩
  refine ⟨hsuits, fun i type w htype hw => ?_⟩
  unfold Context.writeSlot at hk
  split at hk
  · cases hk
    rw [hsuits.others_getElem?] at hw
    by_cases hslot : slot = u.layout.start .other + i
    · subst hslot
      obtain ⟨⟨name, type'⟩, hinput, rfl⟩ := Option.map_eq_some_iff.1 htype
      rw [List.getElem?_set_self (by assumption), Option.some.injEq] at hw
      exact hw ▸ hs name type' hinput
    · rw [List.getElem?_set_ne hslot, ← h.suits.others_getElem?] at hw
      exact h.takes i type w htype hw
  · cases hk

theorem Typed.guarded (hu : u.Valid) : Guarded (u.compiler r) fun k => k.Typed u where
  storeSlot {k k' name slot type v} hi hv hk h := by
    refine hk.writeSlot (fun name' type' hinput => ?_) h
    rw [hu.inputs_slot hi] at hinput
    cases hinput
    exact hv
  storeName {k k' name v} hi hk h := by
    have hslot : k.slot? name = none := by
      rw [slot?, hk.suits.inputs, CompiledUnit.position?_eq hu]
      cases hp : u.plan.inputs.findIdx? (· == name) with
      | none => rfl
      | some i =>
        obtain ⟨type, -, hinput, -⟩ := hu.input (r := r) hp
        rw [hi] at hinput
        cases hinput
    rw [writeName, hslot] at h
    dsimp only at h
    split at h <;>
    · rw [← Except.ok.inj h]
      exact hk.withScope _
  declare {k k' name v} hk h := by
    unfold Context.declare at h
    split at h
    · next slot type hslot htype =>
      rw [slot?, hk.suits.inputs] at hslot
      rw [hk.suits.inputs] at htype
      split at h
      · cases h
      · next hfree =>
        refine hk.writeSlot (fun name' type' hinput => ?_) h
        rw [hu.inputs_getElem? hslot htype] at hinput
        cases hinput
        obtain rfl := ValueType.eq_any_of_free (Bool.eq_false_iff.2 hfree)
        exact ValueType.holds_any v
    · rw [← Except.ok.inj h]
      exact hk.withScope _

end Context

theorem CompiledUnit.run_typed {u : CompiledUnit} {p : Plan} {config : Config} {r : Registry} {k : Context}
    {v : Option Value} (hu : p.compile config r = .ok u) (hstrict : p.strict = true) (hk : k.Typed u)
    (hr : (u.run k).result = .ok v) : u.Takes (u.run k).frame.others := by
  obtain ⟨rfl, hvalid, ss, -, hprogram⟩ := compile_eq_ok hu
  exact (run_guarded hstrict (Context.Typed.guarded hvalid) hprogram u.maxStackDepth hk hr).takes

namespace Accumulator

structure Strict (a : Accumulator) (units : CompiledUnits) : Prop where
  plans : ∀ p ∈ a.plans, p.strict = true
  types : ∀ i, units.init.varType? i = units.action.varType? i

variable {a : Accumulator} {config : Config} {registry : Registry} {units : CompiledUnits} {g : Group}
  {tuple : List Fact} {memory : Memory}

theorem Made.reset_takes (h : a.Made config registry units) (hstrict : a.Strict units)
    (hg : units.action.Takes g.vars) : units.action.Takes (a.reset g tuple memory).2.vars := by
  rcases reset_cases a g tuple memory with ⟨e, he⟩ | ⟨units', k, v, left, hu, hk, hrun, hr⟩
  · rwa [he]
  obtain rfl := h.units_unique hu
  obtain ⟨-, hinit, -⟩ := units_steps h.made
  obtain ⟨front, hsplits, -⟩ := h.valid.1.context hk
  have htyped : k.Typed units.init := by
    refine ⟨h.valid.1.context_suits hk, ?_⟩
    rw [hsplits.others]
    exact units.init.takes_nulls a.init.others
  have htakes := CompiledUnit.run_typed hinit (hstrict.plans _ (by simp [plans])) htyped (congrArg Outcome.result hrun)
  rw [hrun] at htakes
  rw [hr]
  exact CompiledUnit.takes_congr (fun i => (hstrict.types i).symm) htakes

theorem Made.accumulate_takes (h : a.Made config registry units) (hstrict : a.Strict units) {fact : Fact}
    (hg : units.action.Takes g.vars) : units.action.Takes (a.accumulate g tuple fact memory).2.vars := by
  rcases accumulate_cases a g tuple fact memory with
    ⟨e, -, he⟩ | ⟨units', k, hu, hk, ⟨reason, left, -, he⟩ | ⟨v, left, hrun, hr⟩⟩
  · rwa [he]
  · rw [he]
    exact hg
  obtain rfl := h.units_unique hu
  obtain ⟨-, -, haction, -⟩ := units_steps h.made
  obtain ⟨front, hsplits, -⟩ := h.valid.2.1.context hk
  have htyped : k.Typed units.action := ⟨h.valid.2.1.context_suits hk, hsplits.others ▸ hg⟩
  have htakes := CompiledUnit.run_typed haction (hstrict.plans _ (by simp [plans])) htyped (congrArg Outcome.result hrun)
  rw [hrun] at htakes
  rw [hr]
  exact htakes

theorem Made.reverseFold_takes (h : a.Made config registry units) (hstrict : a.Strict units) {fact : Fact}
    (hkept : ∀ k, g.snapshot? fact.id = some k → g.Fits units ∧ k.Suits units.action)
    (hg : units.action.Takes g.vars) : units.action.Takes (a.reverseFold g fact).2.vars := by
  rcases reverseFold_cases a g fact with
    ⟨e, -, he⟩ | ⟨units', reverse, k, hu, hreverse, hs, ⟨e, -, he⟩ | ⟨k', v, left, hset, hrun, hr⟩⟩
  · rwa [he]
  · rw [he]
    exact hg
  obtain rfl := h.units_unique hu
  obtain ⟨p, hp, hcompile, hinputs, hlayout⟩ := (units_eq_ok h.made).2.2.2 reverse hreverse
  have htypes (i : Nat) : reverse.varType? i = units.action.varType? i := by
    rw [CompiledUnit.varType?, hinputs, hlayout, CompiledUnit.varType?]
  obtain ⟨hfits, hsuits⟩ := hkept k hs
  obtain ⟨k'', hset', hsuits', hothers⟩ := hsuits.setOthers hfits.vars
  obtain rfl : k' = k'' := Except.ok.inj (hset.symm.trans hset')
  have htyped : k'.Typed reverse :=
    ⟨hsuits'.of_same hinputs hlayout, hothers ▸ CompiledUnit.takes_congr htypes hg⟩
  have htakes := CompiledUnit.run_typed hcompile (hstrict.plans p (by simp [plans, hp])) htyped
    (congrArg Outcome.result hrun)
  rw [hrun] at htakes
  rw [hr]
  exact CompiledUnit.takes_congr (fun i => (htypes i).symm) htakes

theorem Made.call_takes (h : a.Made config registry units) (hstrict : a.Strict units)
    (hkept : ∀ id k, g.snapshot? id = some k → g.Fits units ∧ k.Suits units.action) (hg : units.action.Takes g.vars)
    (c : Call) : units.action.Takes (a.call g c).2.vars := by
  cases c with
  | reset tuple memory => exact h.reset_takes hstrict hg
  | accumulate tuple fact memory => exact h.accumulate_takes hstrict hg
  | reverseFold fact => exact h.reverseFold_takes hstrict (hkept fact.id) hg
  | answer tuple memory => exact hg

theorem Made.behind_takes (h : a.Made config registry units) (hstrict : a.Strict units) (calls : List Call) :
    units.action.Takes (a.behind a.group calls).vars := by
  induction calls using List.reverseRecOn with
  | nil =>
    intro i type v _ hv
    cases hv
  | append_singleton calls c ih =>
    rw [behind_snoc]
    exact h.call_takes hstrict (fun id k hs => ⟨behind_fits_of_snapshot h hs, snapshot_suits h hs⟩) ih c

end Accumulator

end FactFold
