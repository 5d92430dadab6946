import FactFold.Proofs.Accumulator.Typing
import FactFold.Proofs.Clause
import FactFold.Proofs.Scenario.Reversal
import FactFold.Proofs.Scenario.Snapshots

namespace FactFold

namespace Replay

structure Moves (r r' : Replay) : Prop where
  accumulator : r'.accumulator = r.accumulator
  group : ∃ calls, r'.group = r.accumulator.behind r.group calls

variable {r r₁ r₂ : Replay}

theorem Moves.refl (r : Replay) : r.Moves r :=
  ⟨rfl, [], rfl⟩

theorem Moves.trans (h : r.Moves r₁) (h' : r₁.Moves r₂) : r.Moves r₂ := by
  obtain ⟨ha, calls, hg⟩ := h
  obtain ⟨ha', calls', hg'⟩ := h'
  refine ⟨ha'.trans ha, calls ++ calls', ?_⟩
  rw [hg', ha, hg, Accumulator.behind_append]

theorem moves_reset (r : Replay) : r.Moves r.reset.2 :=
  ⟨rfl, [.reset r.tuple r.memory], rfl⟩

theorem moves_fold (r : Replay) (fact : Fact) : r.Moves (r.fold fact).2 :=
  ⟨rfl, [.accumulate r.tuple fact r.memory], rfl⟩

theorem moves_foldAll (r : Replay) (facts : List Fact) : r.Moves (r.foldAll facts).2 := by
  induction facts generalizing r with
  | nil => exact .refl r
  | cons fact rest ih =>
    have hfold := r.moves_fold fact
    unfold foldAll
    rcases hf : r.fold fact with ⟨e | _, r₁⟩
    · rwa [hf] at hfold
    · rw [hf] at hfold
      exact hfold.trans (ih r₁)

theorem moves_undo (r : Replay) (fact : Fact) : r.Moves (r.undo fact).2 := by
  unfold undo
  split
  · exact ⟨rfl, [.reverseFold fact], rfl⟩
  · have hreset := r.moves_reset
    rcases hs : r.reset with ⟨e | _, r₁⟩
    · rwa [hs] at hreset
    · rw [hs] at hreset
      exact hreset.trans (r₁.moves_foldAll _)

theorem moves_insert (r : Replay) (index : Nat) (key : String) (v : Value) : r.Moves (r.insert index key v).2 := by
  unfold insert
  split
  · exact .refl r
  · have hfold := ({ r with next := r.next + 1 } : Replay).moves_fold ⟨r.next, v⟩
    simp only [fresh]
    rcases hf : ({ r with next := r.next + 1 } : Replay).fold ⟨r.next, v⟩ with ⟨e | _, r₁⟩ <;>
    · rw [hf] at hfold
      exact ⟨hfold.accumulator, hfold.group⟩

theorem moves_retract (r : Replay) (index : Nat) (key : String) : r.Moves (r.retract index key).2 := by
  unfold retract
  split
  · exact .refl r
  · next old _ =>
    have hundo := moves_undo { r with live := r.live.erase key } old
    exact ⟨hundo.accumulator, hundo.group⟩

theorem moves_update (r : Replay) (index : Nat) (key : String) (v : Value) : r.Moves (r.update index key v).2 := by
  unfold update
  split
  · exact .refl r
  · next old _ =>
    have hundo := moves_undo { r with live := r.live.put key { old with value := v } } old
    dsimp only
    rcases hu : undo { r with live := r.live.put key { old with value := v } } old with ⟨e | _ | _, r₁⟩
    · rw [hu] at hundo
      exact ⟨hundo.accumulator, hundo.group⟩
    · rw [hu] at hundo
      have hboth := hundo.trans (r₁.moves_fold { old with value := v })
      exact ⟨hboth.accumulator, hboth.group⟩
    · rw [hu] at hundo
      exact ⟨hundo.accumulator, hundo.group⟩

theorem moves_step (r : Replay) (index : Nat) (action : Action) : r.Moves (r.step index action).2 := by
  cases action with
  | insert key v => exact r.moves_insert index key v
  | retract key => exact r.moves_retract index key
  | update key v => exact r.moves_update index key v
  | result expected => exact .refl r

def behind (r : Replay) (actions : List (Nat × Action)) : Replay :=
  actions.foldl (fun r (index, action) => (r.step index action).2) r

theorem moves_behind (r : Replay) (actions : List (Nat × Action)) : r.Moves (r.behind actions) := by
  induction actions generalizing r with
  | nil => exact .refl r
  | cons step actions ih => exact (r.moves_step step.1 step.2).trans (ih _)

end Replay

namespace Scenario

variable {s : Scenario} {registry : Registry} {r : Replay} {units : CompiledUnits}

theorem plans_strict (hstrict : s.config.strict = true) : ∀ p ∈ s.accumulator.plans, p.strict = true := by
  intro p hp
  simp only [Accumulator.plans, accumulator, Clause.accumulator, List.mem_append, List.mem_cons, List.not_mem_nil,
    or_false, Option.mem_toList, Option.map_eq_some_iff] at hp
  rcases hp with ((rfl | rfl) | ⟨source, -, rfl⟩) | rfl <;> exact hstrict

theorem Started.strict (h : s.Started registry units r) (hstrict : s.config.strict = true) :
    r.accumulator.Strict units := by
  obtain ⟨-, hinit, haction, -⟩ := Accumulator.units_steps h.made
  obtain ⟨hplan, hvalid, -⟩ := CompiledUnit.compile_eq_ok hinit
  obtain ⟨hplan', hvalid', -⟩ := CompiledUnit.compile_eq_ok haction
  refine ⟨fun p hp => plans_strict hstrict p (by rwa [h.accumulator] at hp), fun i => ?_⟩
  have hothers : units.init.plan.others = s.clause.vars.map Prod.fst := by rw [hplan]; rfl
  have hothers' : units.action.plan.others = s.clause.vars.map Prod.fst := by rw [hplan']; rfl
  cases hname : (s.clause.vars.map Prod.fst)[i]? with
  | none => rw [hvalid.varType?_eq_none (hothers ▸ hname), hvalid'.varType?_eq_none (hothers' ▸ hname)]
  | some name =>
    rw [hvalid.varType?_eq (hothers ▸ hname), hvalid'.varType?_eq (hothers' ▸ hname)]
    exact (Clause.variable_type hinit haction (List.mem_of_getElem? hname)).symm

theorem Started.behind (h : s.Started registry units r) (actions : List (Nat × Action)) :
    ∃ calls, (r.behind actions).group =
      r.accumulator.behind r.accumulator.group (.reset r.tuple r.memory :: calls) := by
  obtain ⟨-, calls, hg⟩ := r.moves_behind actions
  have hstart : r.group = (r.accumulator.reset r.accumulator.group r.tuple r.memory).2 := by rw [h.reset]
  exact ⟨calls, by rw [hg, hstart]; rfl⟩

theorem Started.varType? (h : s.Started registry units r) :
    ∃ imports, Imports.ofPlan s.accumulator.init registry = .ok imports ∧
      ∀ name typeName, (name, typeName) ∈ s.clause.vars →
        ∃ i type, (s.clause.vars.map Prod.fst).findIdx? (· == name) = some i ∧ i < s.clause.vars.length ∧
          imports.type? registry typeName = some type ∧ units.init.varType? i = some type := by
  obtain ⟨-, hinit, -⟩ := Accumulator.units_steps h.made
  obtain ⟨hplan, hvalid, -⟩ := CompiledUnit.compile_eq_ok hinit
  obtain ⟨imports, himports, htypes⟩ := CompiledUnit.compile_types hinit
  refine ⟨imports, himports, fun name typeName hvar => ?_⟩
  have hothers : units.init.plan.others = s.clause.vars.map Prod.fst := by rw [hplan]; rfl
  have hname : name ∈ s.clause.vars.map Prod.fst := List.mem_map_of_mem hvar
  obtain ⟨i, hlt, hi⟩ := findIdx?_of_mem hname
  obtain ⟨slot, type, htype, -⟩ := hvalid.input_variable (r := registry) (hothers ▸ hi)
  have hmeans : units.init.inputs.get? name = imports.type? registry typeName := by
    refine htypes (name, typeName) ?_
    rw [Scenario.accumulator, Clause.accumulator, Clause.zip_inputs]
    exact List.mem_append_right _ hvar
  refine ⟨i, type, hi, by simpa using hlt, hmeans.symm.trans htype, ?_⟩
  obtain ⟨hlt', hfound, -⟩ := List.findIdx?_eq_some_iff_getElem.1 hi
  have hplace : (s.clause.vars.map Prod.fst)[i]? = some name := by
    rw [List.getElem?_eq_getElem hlt', eq_of_beq hfound]
  rw [hvalid.varType?_eq (hothers ▸ hplace), htype]

theorem strict_state_typed (hstrict : s.config.strict = true) (hstart : s.start registry = .ok r)
    (actions : List (Nat × Action)) :
    ∃ imports, Imports.ofPlan s.accumulator.init registry = .ok imports ∧
      ∀ name typeName, (name, typeName) ∈ s.clause.vars →
        ∃ type v, imports.type? registry typeName = some type ∧
          (r.behind actions).group.value? name = some v ∧
          (type.isConstrained = true → v = .null ∨ type.accepts v = true) ∧
          (type = .float → v = .null ∨ ∃ x, v = .float x) := by
  obtain ⟨units, h⟩ := start_ok hstart
  have hmade := h.ready.made
  obtain ⟨calls, hgroup⟩ := h.behind actions
  have hfits : (r.behind actions).group.Fits units := by
    rw [hgroup]
    exact Accumulator.behind_fits_of_reset hmade [] (congrArg Prod.fst h.reset) calls
  have htakes : units.action.Takes (r.behind actions).group.vars := by
    rw [hgroup]
    exact hmade.behind_takes (h.strict hstrict) _
  have hnames : (r.behind actions).group.identifiers = s.clause.vars.map Prod.fst := by
    rw [hgroup, (Accumulator.behind_reachable (.new _) _).sound.names, h.accumulator]
    rfl
  obtain ⟨imports, himports, hvars⟩ := h.varType?
  refine ⟨imports, himports, fun name typeName hvar => ?_⟩
  obtain ⟨i, type, hi, hlt, hmeans, htype⟩ := hvars name typeName hvar
  have hlength : (r.behind actions).group.vars.length = s.clause.vars.length := by
    rw [hfits.vars, hmade.layout_other.2.1, h.accumulator]
    exact List.length_map _
  have hv := List.getElem?_eq_getElem (l := (r.behind actions).group.vars) (hlength ▸ hlt)
  have hholds := htakes i type _ ((h.strict hstrict).types i ▸ htype) hv
  refine ⟨type, _, hmeans, by rw [Group.value?, hnames, hi, Option.bind_some, hv], fun _ => ?_, ?_⟩
  · exact hholds.imp_right And.left
  · rintro rfl
    exact hholds.float

theorem strict_state_typed_wide :
    ∃ v, ((freshReplay wideSum).behind
        [(0, .insert "a" (.int 7)), (1, .insert "b" (.text "x")), (2, .retract "a")]).group.value? "total" = some v ∧
      (v = .null ∨ ∃ x, v = .float x) := by
  obtain ⟨imports, himports, hvars⟩ := strict_state_typed rfl wideScenario_start
    [(0, .insert "a" (.int 7)), (1, .insert "b" (.text "x")), (2, .retract "a")]
  obtain ⟨type, v, htype, hv, -, hfloat⟩ := hvars "total" "double" (by decide)
  cases himports
  cases htype
  exact ⟨v, hv, hfloat rfl⟩

end Scenario

end FactFold
