import FactFold.Proofs.Accumulator.Fits
import FactFold.Proofs.Scenario.Identities
import FactFold.Proofs.Scenario.Runs

/-!
With a reversal, the facts that have a snapshot are always those that are live. So a fact that is taken out has
one, and no run is refused by the accumulator or stopped by a wrong number of variables.
-/

namespace FactFold

namespace Accumulator

variable {config : Config} {registry : Registry} {a : Accumulator} {units : CompiledUnits} {g g' : Group}
  {tuple facts : List Fact} {fact : Fact} {memory : Memory}

theorem accumulate_kept (hg : g.Sound a) (hreversible : a.isReversible = true)
    (h : a.accumulate g tuple fact memory = (.ok (), g')) (id : UInt64) :
    (g'.snapshot? id).isSome ↔ id = fact.id ∨ (g.snapshot? id).isSome := by
  rcases accumulate_cases a g tuple fact memory with
    ⟨e, -, he⟩ | ⟨units, k, -, -, ⟨reason, left, -, he⟩ | ⟨v, left, -, hr⟩⟩
  · simp [he] at h
  · simp [he] at h
  obtain rfl : { g.remember fact.id left with vars := left.others } = g' := by simpa [hr] using h
  change ((g.remember fact.id left).snapshot? id).isSome ↔ _
  by_cases hid : id = fact.id
  · subst hid
    simp [Group.snapshot?_remember (hg.kept.trans hreversible)]
  · simp [Group.snapshot?_remember_of_ne hid, hid]

theorem reverseFold_kept (hg : g.Sound a) (h : a.reverseFold g fact = (.ok (), g')) (id : UInt64) :
    (g'.snapshot? id).isSome ↔ id ≠ fact.id ∧ (g.snapshot? id).isSome := by
  rcases reverseFold_cases a g fact with
    ⟨e, -, he⟩ | ⟨units, reverse, k, -, -, -, ⟨e, -, he⟩ | ⟨k', v, left, -, -, hr⟩⟩
  · simp [he] at h
  · simp [he] at h
  obtain rfl : { g.forget fact.id with vars := left.others } = g' := by simpa [hr] using h
  change ((g.forget fact.id).snapshot? id).isSome ↔ _
  by_cases hid : id = fact.id
  · subst hid
    simp [hg.snapshot?_forget]
  · simp [Group.snapshot?_forget_of_ne hid, hid]

theorem Folds.fits (h : a.Folds tuple memory g facts g') (hmade : a.Made config registry units)
    (hg : g.Fits units) : g'.Fits units := by
  induction h with
  | nil g => exact hg
  | @cons g g₁ _ fact _ hfold _ ih =>
    have hfits := hmade.accumulate_fits hg tuple fact memory
    rw [hfold] at hfits
    exact ih hfits

theorem Folds.reachable (h : a.Folds tuple memory g facts g') (hg : Reachable a g) : Reachable a g' := by
  induction h with
  | nil g => exact hg
  | @cons g g₁ _ fact _ hfold _ ih =>
    have hnext := hg.accumulate tuple fact memory
    rw [hfold] at hnext
    exact ih hnext

end Accumulator

namespace Replay

structure Ready (config : Config) (registry : Registry) (units : CompiledUnits) (r : Replay) : Prop where
  made : r.accumulator.Made config registry units
  reachable : Reachable r.accumulator r.group
  fits : r.group.Fits units

def Tracks (r : Replay) : Prop :=
  ∀ id, (r.group.snapshot? id).isSome ↔ id ∈ liveIds r.live

variable {config : Config} {registry : Registry} {units : CompiledUnits} {r r' : Replay} {action : Action}
  {actions : List Action} {g : Group} {first : UInt64} {count : Nat} {e : FoldError}

theorem Ready.reversed (h : r.Ready config registry units) {old : Fact} {g₁ : Group}
    (hundo : r.accumulator.reverseFold r.group old = (.ok (), g₁)) :
    Reachable r.accumulator g₁ ∧ g₁.Fits units := by
  have hreachable := h.reachable.reverseFold old
  have hfits := h.made.reverseFold_fits h.reachable.sound h.fits old
  rw [hundo] at hreachable hfits
  exact ⟨hreachable, hfits⟩

theorem Ready.remade (h : r.Ready config registry units) {g₀ : Group}
    (hreset : r.accumulator.reset r.group r.tuple r.memory = (.ok (), g₀)) :
    Reachable r.accumulator g₀ ∧ g₀.Fits units := by
  have hreachable := h.reachable.reset r.tuple r.memory
  rw [hreset] at hreachable
  exact ⟨hreachable, h.made.reset_fits hreset⟩

theorem Did.ready (h : r.Did action g) (hr : r.Ready config registry units) :
    (r.after action g).Ready config registry units := by
  have hfolded {g₀ g : Group} {fact : Fact} (h₀ : Reachable r.accumulator g₀ ∧ g₀.Fits units)
      (hfold : r.accumulator.accumulate g₀ r.tuple fact r.memory = (.ok (), g)) :
      Reachable r.accumulator g ∧ g.Fits units := by
    have h₁ := Accumulator.Folds.cons hfold (.nil g)
    exact ⟨h₁.reachable h₀.1, h₁.fits hr.made h₀.2⟩
  obtain ⟨hreachable, hfits⟩ : Reachable r.accumulator g ∧ g.Fits units := by
    cases h with
    | insert _ hfold => exact hfolded ⟨hr.reachable, hr.fits⟩ hfold
    | retract _ _ hundo => exact hr.reversed hundo
    | update _ _ hundo hfold => exact hfolded (hr.reversed hundo) hfold
    | anew _ _ _ _ hreset hfolds =>
      obtain ⟨hreachable, hfits⟩ := hr.remade hreset
      exact ⟨hfolds.reachable hreachable, hfolds.fits hr.made hfits⟩
    | result => exact ⟨hr.reachable, hr.fits⟩
  exact ⟨hr.made, hreachable, hfits⟩

theorem Did.tracks (h : r.Did action g) (hr : r.Ready config registry units)
    (hreversible : r.accumulator.isReversible = true) (hids : Identified first count r.live r.next)
    (hcount : count < UInt64.size) (ht : r.Tracks) :
    (r.after action g).Tracks ∧
      Identified first (count + 1) (r.after action g).live (r.after action g).next := by
  have hsound := hr.reachable.sound
  cases h with
  | @insert key v _ hnew hfold =>
    obtain ⟨hlive, -, hids'⟩ := hids.insert hcount hnew (v := v)
    refine ⟨fun id => ?_, hids'⟩
    change (g.snapshot? id).isSome ↔ id ∈ liveIds (r.live.put key ⟨r.next, v⟩)
    rw [Accumulator.accumulate_kept hsound hreversible hfold, ht id, hlive, List.mem_append, List.mem_singleton,
      or_comm]
  | @retract key old _ _ hold hundo =>
    obtain ⟨hlive, hgone, hids'⟩ := hids.erase hold
    refine ⟨fun id => ?_, hids'⟩
    change (g.snapshot? id).isSome ↔ id ∈ liveIds (r.live.erase key)
    rw [Accumulator.reverseFold_kept hsound hundo, ht id, hlive.mem_iff, List.mem_cons]
    constructor
    · rintro ⟨hne, hmem⟩
      exact hmem.resolve_left hne
    · intro hmem
      exact ⟨fun he => hgone (he ▸ hmem), .inr hmem⟩
  | @update key v old g₁ _ _ hold hundo hfold =>
    obtain ⟨hlive, hids'⟩ := hids.update hold v
    obtain ⟨hreachable, -⟩ := hr.reversed hundo
    have hmem : old.id ∈ liveIds r.live := (hids.erase hold).1.mem_iff.2 (List.mem_cons_self ..)
    have hafter : Action.liveAfter r.live r.next (.update key v) =
        (r.live.put key { old with value := v }, r.next) := by rw [Action.liveAfter, hold]
    simp only [Tracks, after, hafter]
    refine ⟨fun id => ?_, hids'⟩
    -- the snapshot of the fact is spent, and the new fold makes one under the same identity
    rw [Accumulator.accumulate_kept hreachable.sound hreversible hfold, Accumulator.reverseFold_kept hsound hundo,
      ht id, hlive]
    by_cases hid : id = old.id
    · simp [hid, hmem]
    · simp [hid]
  | anew hirreversible => simp [hreversible] at hirreversible
  | result => exact ⟨ht, hids.wait⟩

theorem Fails.isOrdinary (h : r.Fails action e) (hr : r.Ready config registry units)
    (ht : r.accumulator.isReversible = true → r.Tracks) : e.IsOrdinary := by
  cases h with
  | insert hfold => exact hr.made.accumulate_error hr.fits hfold
  | @undo _ key old _ hreversible hold hundo =>
    have hmem : old.id ∈ liveIds r.live := List.mem_map_of_mem (Entries.mem_of_get? hold)
    obtain ⟨k, hk⟩ := Option.isSome_iff_exists.1 ((ht hreversible old.id).2 hmem)
    exact hr.made.reverseFold_error hr.fits hreversible hk hundo
  | update hundo hfold => exact hr.made.accumulate_error (hr.reversed hundo).2 hfold
  | reset hreset => exact hr.made.reset_error hreset
  | anew hreset hfolds hfold => exact hr.made.accumulate_error (hfolds.fits hr.made (hr.remade hreset).2) hfold
  | result hanswer => exact hr.made.answer_error hr.fits hanswer

theorem Reaches.ready (h : r.Reaches actions r') (hr : r.Ready config registry units) :
    r'.Ready config registry units :=
  h.invariant (P := fun _ r' => r'.Ready config registry units) hr fun _ hr hdid => hdid.ready hr

theorem Reaches.tracks (h : r.Reaches actions r') (hr : r.Ready config registry units)
    (hreversible : r.accumulator.isReversible = true) (hlive : r.live = []) (ht : r.Tracks)
    (hcount : actions.length ≤ UInt64.size) : r'.Tracks ∧ (liveIds r'.live).Nodup := by
  -- an invariant only as long as there are identities left
  have hkept : actions.length ≤ UInt64.size →
      r'.Tracks ∧ Identified r.next actions.length r'.live r'.next := by
    refine h.invariant (P := fun actions r' => actions.length ≤ UInt64.size →
      r'.Tracks ∧ Identified r.next actions.length r'.live r'.next) (fun _ => ?_) fun h hkept hdid hcount => ?_
    · exact ⟨ht, hlive ▸ .none r.next⟩
    · rw [List.length_append, List.length_singleton] at hcount ⊢
      obtain ⟨ht, hids⟩ := hkept (by omega)
      exact hdid.tracks (h.ready hr) (h.same.1 ▸ hreversible) hids hcount ht
  obtain ⟨ht, hids⟩ := hkept hcount
  exact ⟨ht, hids.distinct⟩

end Replay

namespace Scenario

variable {s : Scenario} {registry : Registry} {r : Replay} {units : CompiledUnits}

theorem Started.ready (h : s.Started registry units r) : r.Ready s.config registry units := by
  have hmade : r.accumulator.Made s.config registry units := ⟨h.compiled, by rw [h.accumulator]; exact h.made⟩
  have hreachable := (Reachable.new r.accumulator).reset r.tuple r.memory
  rw [h.reset] at hreachable
  exact ⟨hmade, hreachable, hmade.reset_fits h.reset⟩

theorem Started.tracks (h : s.Started registry units r) : r.Tracks := by
  intro id
  simp [Accumulator.reset_snapshot? h.reset, h.live, liveIds]

theorem start_error {e : FoldError} (h : s.start registry = .error (.fold e)) : e.IsOrdinary := by
  rcases bind_eq_error.1 h with ha | ⟨a, ha, h⟩
  · cases hc : s.accumulator.compile s.config registry <;> simp [hc, Except.mapError] at ha
  · obtain ⟨units, hunits, rfl⟩ := map_eq_ok.1 (mapError_eq_ok.1 ha)
    dsimp only at h
    split at h
    · cases h
    · next e₁ r₁ hreset =>
      cases h
      obtain ⟨e', he', he⟩ := Replay.folded_error (congrArg Prod.fst hreset)
      cases he
      have hmade : Accumulator.Made s.config registry { s.accumulator with compiled := some units } units :=
        ⟨rfl, hunits⟩
      exact hmade.reset_error he'

/-- With a reversal, in the course of any steps the facts with a snapshot are those that are live, each with an
identity of its own. No run, with or without a reversal, ends because a fold is refused or because the variables
are not as many as a unit has. The identities are words, so there must not be more steps than words; lists in
memory are shorter. -/
theorem snapshots_follow_live (s : Scenario) (registry : Registry) :
    (s.clause.reverse.isSome = true → ∀ r actions r', s.start registry = .ok r → r.Reaches actions r' →
      actions.length ≤ UInt64.size →
        (liveIds r'.live).Nodup ∧ ∃ snapshots, r'.group.snapshots = some snapshots ∧
          (snapshots.map Prod.fst).Perm (liveIds r'.live)) ∧
      (s.steps.length ≤ UInt64.size → ∀ e, s.run registry = .error (.fold e) →
        e.isRefusal = false ∧ e.isMiscount = false) := by
  constructor
  · intro hreverse r actions r' hstart h hcount
    obtain ⟨units, hs⟩ := start_ok hstart
    have hreversible : r.accumulator.isReversible = true := by rw [hs.isReversible, hreverse]
    obtain ⟨ht, hids⟩ := h.tracks hs.ready hreversible hs.live hs.tracks hcount
    have hsound := (h.ready hs.ready).reachable.sound
    obtain ⟨snapshots, hsnapshots⟩ := Option.isSome_iff_exists.1 (hsound.kept.trans (h.same.1 ▸ hreversible))
    refine ⟨hids, snapshots, hsnapshots, ?_⟩
    rw [List.perm_ext_iff_of_nodup (hsound.once snapshots hsnapshots) hids]
    intro id
    rw [← ht id, Group.snapshot?, hsnapshots, Option.bind_some, Option.isSome_iff_ne_none, ne_eq,
      Entries.get?_eq_none_iff, not_not]
  · intro hlength e hrun
    rcases bind_eq_error.1 hrun with hstart | ⟨r, hstart, hrun⟩
    · exact start_error hstart
    obtain ⟨units, hs⟩ := start_ok hstart
    rcases bind_eq_error.1 hrun with hsteps | ⟨os, -, hreport⟩
    · rcases Replay.steps_error .refl hsteps with ⟨step, -, i, hbad⟩ | ⟨actions, r', action, i, h, hactions, hfails⟩
      · unfold Step.action at hbad
        split at hbad <;> cases hbad
      · rw [List.length_nil, Nat.zero_add] at hactions
        refine (Replay.step_error hfails).isOrdinary (h.ready hs.ready) fun hreversible => ?_
        exact (h.tracks hs.ready (h.same.1 ▸ hreversible) hs.live hs.tracks (by omega)).1
    · cases hreport

end Scenario

def textScenario : Scenario where
  name := "sum"
  clause := sumClause
  steps := [{ insert := some ("a", .text "x") }, { retract := some "a" }]

theorem textScenario_start : textScenario.start sumRegistry = .ok (freshReplay sum) := by
  have hcompile : textScenario.accumulator.compile textScenario.config sumRegistry = .ok sum := sum_compile
  rw [Scenario.start, hcompile]
  rfl

def textInserted : Replay :=
  ((freshReplay sum).step 0 (.insert "a" (.text "x"))).2

theorem snapshots_follow_live_text :
    (∃ snapshots, textInserted.group.snapshots = some snapshots ∧ (snapshots.map Prod.fst).Perm [0]) ∧
      ∃ e, textScenario.run sumRegistry = .error (.fold e) ∧ e.isRefusal = false ∧ e.isMiscount = false := by
  obtain ⟨hlive, hfails⟩ := Scenario.snapshots_follow_live textScenario sumRegistry
  have h : (freshReplay sum).Reaches [.insert "a" (.text "x")] textInserted :=
    Replay.Reaches.refl.next 0 (.insert "a" (.text "x")) rfl
  refine ⟨(hlive rfl _ _ _ textScenario_start h (by decide)).2, ?_⟩
  have hrun : textScenario.run sumRegistry =
      .error (.fold (.run (.mismatch (.arith .sub) .number "text"))) := by
    rw [Scenario.run, textScenario_start]
    rfl
  exact ⟨_, hrun, hfails (by decide) _ hrun⟩

end FactFold
