import FactFold.Proofs.Scenario.Steps

namespace FactFold

namespace Scenario

variable {s : Scenario} {registry : Registry} {r : Replay}

structure Started (registry : Registry) (s : Scenario) (units : CompiledUnits) (r : Replay) : Prop where
  made : s.accumulator.units s.config registry = .ok units
  accumulator : r.accumulator = { s.accumulator with compiled := some units }
  tuple : r.tuple = s.tuple.zipIdx.map fun (v, id) => ⟨UInt64.ofNat id, v⟩
  memory : r.memory = { globals := s.globals, package := s.package }
  reset : r.accumulator.reset r.accumulator.group r.tuple r.memory = (.ok (), r.group)
  live : r.live = []
  next : r.next = UInt64.ofNat s.tuple.length

theorem start_ok (h : s.start registry = .ok r) : ∃ units, s.Started registry units r := by
  obtain ⟨a, ha, h⟩ := bind_eq_ok.1 h
  obtain ⟨units, hunits, rfl⟩ := map_eq_ok.1 (mapError_eq_ok.1 ha)
  dsimp only at h
  split at h
  · next r₁ hreset =>
    obtain ⟨g, hg, rfl⟩ := Replay.folded_ok hreset
    cases h
    exact ⟨units, hunits, rfl, rfl, rfl, hg, rfl, rfl⟩
  · cases h

theorem Started.compiled {units : CompiledUnits} (h : s.Started registry units r) :
    r.accumulator.compiled = some units := by
  rw [h.accumulator]

theorem Started.isReversible {units : CompiledUnits} (h : s.Started registry units r) :
    r.accumulator.isReversible = s.clause.reverse.isSome := by
  rw [h.accumulator, Accumulator.isReversible]
  exact Option.isSome_map

end Scenario

def freshReplay (a : Accumulator) : Replay where
  accumulator := a
  memory := {}
  tuple := []
  group := (a.reset a.group [] {}).2
  live := []
  next := 0

inductive Accumulator.Folds (a : Accumulator) (tuple : List Fact) (memory : Memory) :
    Group → List Fact → Group → Prop where
  | nil (g : Group) : Folds a tuple memory g [] g
  | cons {g g₁ g₂ : Group} {fact : Fact} {facts : List Fact}
      (h : a.accumulate g tuple fact memory = (.ok (), g₁)) (rest : Folds a tuple memory g₁ facts g₂) :
      Folds a tuple memory g (fact :: facts) g₂

namespace Replay

variable {r r' r₁ : Replay} {fact : Fact} {facts : List Fact} {index : Nat} {action : Action}
  {actions : List Action} {key : String} {v : Value} {b : Bool} {o : StepOutcome}

theorem foldAll_ok (h : r.foldAll facts = (.ok (), r')) :
    ∃ g, r.accumulator.Folds r.tuple r.memory r.group facts g ∧ r' = { r with group := g } := by
  induction facts generalizing r with
  | nil =>
    obtain ⟨-, rfl⟩ := Prod.mk.inj h
    exact ⟨r.group, .nil _, rfl⟩
  | cons fact rest ih =>
    unfold foldAll at h
    rcases hf : r.fold fact with ⟨e | _, r₁⟩
    · simp [hf] at h
    · simp only [hf] at h
      obtain ⟨g₁, hg₁, rfl⟩ := folded_ok hf
      obtain ⟨g, hg, rfl⟩ := ih h
      exact ⟨g, .cons hg₁ hg, rfl⟩

theorem folded_error {α : Type} {f : Accumulator.Folded α} {e : ScenarioError} (h : (r.folded f).1 = .error e) :
    ∃ e', f.1 = .error e' ∧ e = .fold e' := by
  cases hf : f.1 with
  | ok x => simp [folded, hf, Except.mapError] at h
  | error e' =>
    simp only [folded, hf, Except.mapError, Except.error.injEq] at h
    exact ⟨e', rfl, h.symm⟩

theorem foldAll_error {e : ScenarioError} (h : (r.foldAll facts).1 = .error e) :
    ∃ done g fact e', r.accumulator.Folds r.tuple r.memory r.group done g ∧
      (r.accumulator.accumulate g r.tuple fact r.memory).1 = .error e' ∧ e = .fold e' := by
  induction facts generalizing r with
  | nil => cases h
  | cons fact rest ih =>
    unfold foldAll at h
    rcases hf : r.fold fact with ⟨e₁ | _, r₁⟩
    · simp only [hf, Except.error.injEq] at h
      have herror : (r.fold fact).1 = .error e := by rw [hf, h]
      obtain ⟨e', he', rfl⟩ := folded_error herror
      exact ⟨[], r.group, fact, e', .nil _, he', rfl⟩
    · simp only [hf] at h
      obtain ⟨g₁, hg₁, rfl⟩ := folded_ok hf
      obtain ⟨done, g, fact', e', hg, he', rfl⟩ := ih h
      exact ⟨fact :: done, g, fact', e', .cons hg₁ hg, he', rfl⟩

inductive Did (r : Replay) : Action → Group → Prop where
  | insert {key : String} {v : Value} {g : Group} (hnew : r.live.get? key = none)
      (hfold : r.accumulator.accumulate r.group r.tuple ⟨r.next, v⟩ r.memory = (.ok (), g)) :
      Did r (.insert key v) g
  | retract {key : String} {old : Fact} {g : Group} (hreversible : r.accumulator.isReversible = true)
      (hold : r.live.get? key = some old) (hundo : r.accumulator.reverseFold r.group old = (.ok (), g)) :
      Did r (.retract key) g
  | update {key : String} {v : Value} {old : Fact} {g₁ g : Group}
      (hreversible : r.accumulator.isReversible = true) (hold : r.live.get? key = some old)
      (hundo : r.accumulator.reverseFold r.group old = (.ok (), g₁))
      (hfold : r.accumulator.accumulate g₁ r.tuple { old with value := v } r.memory = (.ok (), g)) :
      Did r (.update key v) g
  -- Without a reversal, a new group is made of the facts that are live behind the action.
  | anew {action : Action} {key : String} {old : Fact} {g₀ g : Group}
      (hirreversible : r.accumulator.isReversible = false) (hundoes : action.undoes = true)
      (hkey : action.key? = some key) (hold : r.live.get? key = some old)
      (hreset : r.accumulator.reset r.group r.tuple r.memory = (.ok (), g₀))
      (hfolds : r.accumulator.Folds r.tuple r.memory g₀ ((action.liveAfter r.live r.next).1.map Prod.snd) g) :
      Did r action g
  | result {expected : Option Value} {v : Value} (hanswer : r.answer = .ok v) : Did r (.result expected) r.group

def after (r : Replay) (action : Action) (g : Group) : Replay :=
  { r with
    group := g
    live := (action.liveAfter r.live r.next).1
    next := (action.liveAfter r.live r.next).2 }

theorem retract_did (h : r.retract index key = (.ok b, r')) :
    ∃ g, r.Did (.retract key) g ∧ r' = r.after (.retract key) g := by
  obtain ⟨old, hold, hundo⟩ := retract_ok h
  rcases undo_ok hundo with ⟨hreversible, -, g, hg, rfl⟩ | ⟨hirreversible, -, g₀, hg₀, hall⟩
  · exact ⟨g, .retract hreversible hold hg, rfl⟩
  · obtain ⟨g, hg, rfl⟩ := foldAll_ok hall
    exact ⟨g, .anew hirreversible rfl rfl hold hg₀ hg, rfl⟩

theorem update_did (h : r.update index key v = (.ok b, r')) :
    ∃ g, r.Did (.update key v) g ∧ r' = r.after (.update key v) g := by
  obtain ⟨old, r₁, hold, hundo, hrest⟩ := update_ok h
  have hlive : Action.liveAfter r.live r.next (.update key v) =
      (r.live.put key { old with value := v }, r.next) := by rw [Action.liveAfter, hold]
  unfold after
  rw [hlive]
  rcases undo_ok hundo with ⟨hreversible, rfl, g₁, hg₁, rfl⟩ | ⟨hirreversible, rfl, g₀, hg₀, hall⟩
  · rcases hrest with ⟨hb, -⟩ | ⟨-, hfold⟩
    · cases hb
    · obtain ⟨g, hg, rfl⟩ := folded_ok hfold
      exact ⟨g, .update hreversible hold hg₁ hg, rfl⟩
  · rcases hrest with ⟨-, rfl⟩ | ⟨hb, -⟩
    · obtain ⟨g, hg, rfl⟩ := foldAll_ok hall
      exact ⟨g, .anew hirreversible rfl rfl hold hg₀ (by rw [hlive]; exact hg), rfl⟩
    · cases hb

theorem step_ok (h : r.step index action = (.ok o, r')) :
    ∃ g, r.Did action g ∧ r' = r.after action g ∧ ∃ answer b, o = r'.outcome index action answer b := by
  cases action with
  | insert key v =>
    obtain ⟨ho, rfl⟩ := Prod.mk.inj h
    obtain ⟨_, hok, rfl⟩ := map_eq_ok.1 ho
    obtain ⟨hnew, g, hg, hr'⟩ := insert_ok (Prod.ext hok rfl)
    exact ⟨g, .insert hnew hg, hr', none, false, rfl⟩
  | retract key =>
    obtain ⟨ho, rfl⟩ := Prod.mk.inj h
    obtain ⟨b, hok, rfl⟩ := map_eq_ok.1 ho
    obtain ⟨g, hdid, hr'⟩ := retract_did (Prod.ext hok rfl)
    exact ⟨g, hdid, hr', none, b, rfl⟩
  | update key v =>
    obtain ⟨ho, rfl⟩ := Prod.mk.inj h
    obtain ⟨b, hok, rfl⟩ := map_eq_ok.1 ho
    obtain ⟨g, hdid, hr'⟩ := update_did (Prod.ext hok rfl)
    exact ⟨g, hdid, hr', none, b, rfl⟩
  | result expected =>
    obtain ⟨ho, rfl⟩ := Prod.mk.inj h
    obtain ⟨v, hv, rfl⟩ := map_eq_ok.1 ho
    exact ⟨r.group, .result hv, rfl, some v, false, rfl⟩

inductive Fails (r : Replay) : Action → FoldError → Prop where
  | insert {key : String} {v : Value} {e : FoldError}
      (hfold : (r.accumulator.accumulate r.group r.tuple ⟨r.next, v⟩ r.memory).1 = .error e) :
      Fails r (.insert key v) e
  | undo {action : Action} {key : String} {old : Fact} {e : FoldError}
      (hreversible : r.accumulator.isReversible = true) (hold : r.live.get? key = some old)
      (hundo : (r.accumulator.reverseFold r.group old).1 = .error e) : Fails r action e
  | update {key : String} {v : Value} {old : Fact} {g₁ : Group} {e : FoldError}
      (hundo : r.accumulator.reverseFold r.group old = (.ok (), g₁))
      (hfold : (r.accumulator.accumulate g₁ r.tuple { old with value := v } r.memory).1 = .error e) :
      Fails r (.update key v) e
  | reset {action : Action} {e : FoldError}
      (hreset : (r.accumulator.reset r.group r.tuple r.memory).1 = .error e) : Fails r action e
  | anew {action : Action} {done : List Fact} {fact : Fact} {g₀ g : Group} {e : FoldError}
      (hreset : r.accumulator.reset r.group r.tuple r.memory = (.ok (), g₀))
      (hfolds : r.accumulator.Folds r.tuple r.memory g₀ done g)
      (hfold : (r.accumulator.accumulate g r.tuple fact r.memory).1 = .error e) : Fails r action e
  | result {expected : Option Value} {e : FoldError}
      (hanswer : r.accumulator.answer r.group r.tuple r.memory = .error e) : Fails r (.result expected) e

theorem undo_error {live : Entries String Fact} {old : Fact} {e : ScenarioError}
    (hold : r.live.get? key = some old) (h : (undo { r with live } old).1 = .error e) :
    ∃ e', r.Fails action e' ∧ e = .fold e' := by
  unfold undo at h
  split at h
  · next hreversible =>
    obtain ⟨e', he', rfl⟩ := folded_error (map_eq_error.1 h)
    exact ⟨e', .undo hreversible hold he', rfl⟩
  · rcases hs : reset { r with live } with ⟨e₁ | _, r₁⟩
    · simp only [hs, Except.error.injEq] at h
      have herror : (reset { r with live }).1 = .error e := by rw [hs, h]
      obtain ⟨e', he', rfl⟩ := folded_error herror
      exact ⟨e', .reset he', rfl⟩
    · simp only [hs] at h
      obtain ⟨g₀, hg₀, rfl⟩ := folded_ok hs
      obtain ⟨done, g, fact, e', hg, he', rfl⟩ := foldAll_error (map_eq_error.1 h)
      exact ⟨e', .anew hg₀ hg he', rfl⟩

theorem insert_error {e : FoldError} (h : (r.insert index key v).1 = .error (.fold e)) :
    r.Fails (.insert key v) e := by
  unfold insert at h
  split at h
  · cases h
  · simp only [fresh] at h
    rcases hf : ({ r with next := r.next + 1 } : Replay).fold ⟨r.next, v⟩ with ⟨e₁ | _, r₁⟩
    · simp only [hf, Except.error.injEq] at h
      have herror : (({ r with next := r.next + 1 } : Replay).fold ⟨r.next, v⟩).1 = .error (.fold e) := by rw [hf, h]
      obtain ⟨e', he', he⟩ := folded_error herror
      cases he
      exact .insert he'
    · simp [hf] at h

theorem retract_error {e : FoldError} (h : (r.retract index key).1 = .error (.fold e)) :
    r.Fails (.retract key) e := by
  unfold retract at h
  split at h
  · cases h
  · next old hold =>
    obtain ⟨e', hfails, he⟩ := undo_error hold h
    cases he
    exact hfails

theorem update_error {e : FoldError} (h : (r.update index key v).1 = .error (.fold e)) :
    r.Fails (.update key v) e := by
  unfold update at h
  split at h
  · cases h
  · next old hold =>
    dsimp only at h
    rcases hu : undo { r with live := r.live.put key { old with value := v } } old with ⟨e₁ | _ | _, r₁⟩
    · simp only [hu, Except.error.injEq] at h
      have herror : (undo { r with live := r.live.put key { old with value := v } } old).1 = .error (.fold e) := by
        rw [hu, h]
      obtain ⟨e', hfails, he⟩ := undo_error hold herror
      cases he
      exact hfails
    · simp only [hu] at h
      obtain ⟨e', he', he⟩ := folded_error (map_eq_error.1 h)
      cases he
      rcases undo_ok hu with ⟨-, -, g₁, hg₁, rfl⟩ | ⟨-, hb, -⟩
      · exact .update hg₁ he'
      · cases hb
    · simp [hu] at h

theorem step_error {e : FoldError} (h : (r.step index action).1 = .error (.fold e)) : r.Fails action e := by
  cases action with
  | insert key v => exact insert_error (map_eq_error.1 h)
  | retract key => exact retract_error (map_eq_error.1 h)
  | update key v => exact update_error (map_eq_error.1 h)
  | result expected =>
    have hanswer : r.answer = .error (.fold e) := map_eq_error.1 h
    obtain ⟨e', he', he⟩ := folded_error (r := r) (f := (r.accumulator.answer r.group r.tuple r.memory, r.group)) hanswer
    cases he
    exact .result he'

inductive Reaches (r : Replay) : List Action → Replay → Prop where
  | refl : Reaches r [] r
  | step {actions : List Action} {action : Action} {r₁ r₂ : Replay} {index : Nat} {o : StepOutcome}
      (h : Reaches r actions r₁) (hstep : r₁.step index action = (.ok o, r₂)) :
      Reaches r (actions ++ [action]) r₂

theorem Reaches.next (h : r.Reaches actions r₁) (index : Nat) (action : Action)
    (hok : (r₁.step index action).1.isOk = true) : r.Reaches (actions ++ [action]) (r₁.step index action).2 := by
  rcases hs : r₁.step index action with ⟨e | o, r₂⟩
  · rw [hs] at hok
    cases hok
  · exact h.step hs

theorem Reaches.invariant {P : List Action → Replay → Prop} (h : r.Reaches actions r') (start : P [] r)
    (step : ∀ {actions r₁ action g}, r.Reaches actions r₁ → P actions r₁ → r₁.Did action g →
      P (actions ++ [action]) (r₁.after action g)) : P actions r' := by
  induction h with
  | refl => exact start
  | step h hstep ih =>
    obtain ⟨g, hdid, rfl, -⟩ := step_ok hstep
    exact step h ih hdid

theorem Reaches.same (h : r.Reaches actions r') :
    r'.accumulator = r.accumulator ∧ r'.tuple = r.tuple ∧ r'.memory = r.memory :=
  h.invariant (P := fun _ r' => r'.accumulator = r.accumulator ∧ r'.tuple = r.tuple ∧ r'.memory = r.memory)
    ⟨rfl, rfl, rfl⟩ fun _ hr _ => hr

theorem steps_ok {steps : List Step} {os : List StepOutcome} (hr : r.Reaches actions r₁)
    (h : r₁.steps index steps = .ok os) :
    steps.map Step.actions = os.map ([·.action]) ∧
      ∀ i o, os[i]? = some o → ∃ r₂, r.Reaches (actions ++ (os.take (i + 1)).map (·.action)) r₂ ∧
        o.vars = r₂.accumulator.init.others.zip r₂.group.vars := by
  induction steps generalizing r₁ index actions os with
  | nil =>
    cases h
    simp
  | cons step rest ih =>
    obtain ⟨action, haction, h⟩ := bind_eq_ok.1 h
    rcases hs : r₁.step index action with ⟨e | o₁, r₂⟩
    · simp [hs] at h
    simp only [hs] at h
    obtain ⟨more, hmore, h⟩ := bind_eq_ok.1 h
    cases h
    have hr₂ := hr.step hs
    obtain ⟨-, -, -, answer, b, rfl⟩ := step_ok hs
    obtain ⟨hactions, houtcomes⟩ := ih hr₂ hmore
    refine ⟨?_, fun i o hi => ?_⟩
    · rw [List.map_cons, List.map_cons, hactions, Step.actions_of_action haction]
      rfl
    -- the first outcome is behind this step, the others are behind the rest
    cases i with
    | zero =>
      cases hi
      exact ⟨r₂, hr₂, rfl⟩
    | succ i =>
      obtain ⟨r₃, hr₃, hvars⟩ := houtcomes i o hi
      rw [List.append_assoc] at hr₃
      exact ⟨r₃, hr₃, hvars⟩

theorem steps_error {steps : List Step} {e : ScenarioError} (hr : r.Reaches actions r₁)
    (h : r₁.steps index steps = .error e) :
    (∃ step ∈ steps, ∃ i, step.action i = .error e) ∨
      ∃ actions' r₂ action i, r.Reaches actions' r₂ ∧ actions'.length < actions.length + steps.length ∧
        (r₂.step i action).1 = .error e := by
  induction steps generalizing r₁ index actions with
  | nil => cases h
  | cons step rest ih =>
    rcases bind_eq_error.1 h with haction | ⟨action, -, h⟩
    · exact .inl ⟨step, List.mem_cons_self .., index, haction⟩
    rcases hs : r₁.step index action with ⟨e₁ | o, r₂⟩
    · simp only [hs, Except.error.injEq] at h
      exact .inr ⟨actions, r₁, action, index, hr, by simp, by rw [hs, h]⟩
    · simp only [hs] at h
      have hrest : r₂.steps (index + 1) rest = .error e := by
        rcases bind_eq_error.1 h with hrest | ⟨more, -, hmore⟩
        · exact hrest
        · cases hmore
      rcases ih (hr.step hs) hrest with ⟨step, hstep, hbad⟩ | ⟨actions', r₃, action', i, hr₃, hlength, herror⟩
      · exact .inl ⟨step, List.mem_cons_of_mem _ hstep, hbad⟩
      · refine .inr ⟨actions', r₃, action', i, hr₃, ?_, herror⟩
        rw [List.length_append, List.length_singleton] at hlength
        rw [List.length_cons]
        omega

end Replay

end FactFold
