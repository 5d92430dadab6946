import FactFold.Proofs.Accumulator.Folds
import FactFold.Proofs.Scenario.Identities

/-!
Where the accumulator adds, the variables are what the start has left and what the payloads of the live facts
add to it, whether folds are undone by a reversal or by folding again what is left.
-/

namespace FactFold

open Script

structure Additive (registry : Registry) (a : Accumulator) (tuple : List Fact) (memory : Memory)
    (u : CompiledUnit) (pairs : Entries String Expr) (start : List Value) : Prop where
  compiled : ∃ units, a.compiled = some units ∧ units.action = u
  adds : u.Updating registry a.init.others .add pairs
  inverse : a.isReversible = true → ∃ units reverse back, units.action = u ∧
    Inverse registry a units reverse pairs back
  restart : ∀ g g', a.reset g tuple memory = (.ok (), g') → g'.vars = start
  length : start.length = a.init.others.length
  ints : ∀ x ∈ pairs.map Prod.fst, ∃ n, namedValue? a.init.others start x = some (.int n)

namespace Replay

section

variable (registry : Registry) (u : CompiledUnit) (pairs : Entries String Expr) (start : List Value)

def addend (r : Replay) (fact : Fact) : String → Int :=
  u.payloadAddend registry pairs r.tuple r.memory fact.value

def liveSum (r : Replay) (x : String) : Int :=
  r.live.weigh fun fact => r.addend registry u pairs fact x

def Holds (n : String → Int) (r : Replay) : Prop :=
  r.group.vars.length = r.accumulator.init.others.length ∧
    Shifted r.accumulator.init.others (pairs.map Prod.fst) (· + ·) n start r.group.vars

def Remembers (r : Replay) (fact : Fact) : Prop :=
  ∀ k, r.group.snapshot? fact.id = some k → FoldedWith registry u pairs k (r.addend registry u pairs fact)

end

variable {registry : Registry} {u : CompiledUnit} {pairs : Entries String Expr} {start : List Value}
  {r r' : Replay} {n : String → Int} {fact : Fact}

theorem fold_holds (h : Additive registry r.accumulator r.tuple r.memory u pairs start)
    (hr : r.Holds pairs start n) (hi : u.Integers registry pairs r.tuple r.memory fact.value)
    (hcall : r.fold fact = (.ok (), r')) :
    ∃ g, r' = { r with group := g } ∧ r'.Holds pairs start (n + r.addend registry u pairs fact) ∧
      r'.Remembers registry u pairs fact ∧
      ∀ other, other.id ≠ fact.id → r.Remembers registry u pairs other → r'.Remembers registry u pairs other := by
  obtain ⟨units, hunits, rfl⟩ := h.compiled
  obtain ⟨g, hg, rfl⟩ := folded_ok hcall
  obtain ⟨left, rfl, hlength, hfolded, hshift⟩ := accumulate_ok h.adds hunits
    (fun k hk => h.adds.payload_value hi hk) hr.2.ints hg
  refine ⟨_, rfl, ⟨hlength, hr.2.trans hshift fun x i => Int.add_assoc ..⟩, ?_, ?_⟩
  · intro k hk
    have hsome : r.group.snapshots.isSome = true := by
      cases hs : r.group.snapshots with
      | some s => rfl
      | none =>
        have hk : (r.group.remember fact.id left).snapshot? fact.id = some k := hk
        rw [Group.remember_of_none hs, Group.snapshot?, hs] at hk
        cases hk
    obtain rfl : left = k := Option.some.inj ((Group.snapshot?_remember hsome).symm.trans hk)
    exact hfolded
  · intro other hne hother k hk
    exact hother k ((Group.snapshot?_remember_of_ne hne).symm.trans hk)

theorem foldAll_holds {facts : List Fact} (h : Additive registry r.accumulator r.tuple r.memory u pairs start)
    (hr : r.Holds pairs start n) (hids : (facts.map Fact.id).Nodup)
    (hi : ∀ fact ∈ facts, u.Integers registry pairs r.tuple r.memory fact.value)
    (hcall : r.foldAll facts = (.ok (), r')) :
    ∃ g, r' = { r with group := g } ∧
      r'.Holds pairs start (fun x => n x + (facts.map fun fact => r.addend registry u pairs fact x).sum) ∧
      (∀ fact ∈ facts, r'.Remembers registry u pairs fact) ∧
      ∀ other, other.id ∉ facts.map Fact.id → r.Remembers registry u pairs other →
        r'.Remembers registry u pairs other := by
  induction facts generalizing r n with
  | nil =>
    obtain ⟨-, rfl⟩ := Prod.mk.inj hcall
    refine ⟨r.group, rfl, ?_, by simp, fun _ _ hother => hother⟩
    simpa using hr
  | cons fact rest ih =>
    obtain ⟨hfirst, hrest⟩ := List.nodup_cons.1 hids
    unfold foldAll at hcall
    rcases hf : r.fold fact with ⟨e | _, r₁⟩
    · simp [hf] at hcall
    · simp only [hf] at hcall
      obtain ⟨g₁, rfl, hholds, hremembers, hkeeps⟩ := fold_holds h hr (hi fact (List.mem_cons_self ..)) hf
      obtain ⟨g, rfl, hholds', hremembers', hkeeps'⟩ :=
        ih (r := { r with group := g₁ }) h hholds hrest
          (fun fact hfact => hi fact (List.mem_cons_of_mem _ hfact)) hcall
      refine ⟨g, rfl, ?_, ?_, ?_⟩
      · have hsum : (fun x => (n + r.addend registry u pairs fact) x +
            (rest.map fun fact => r.addend registry u pairs fact x).sum) =
            fun x => n x + ((fact :: rest).map fun fact => r.addend registry u pairs fact x).sum := by
          funext x
          rw [List.map_cons, List.sum_cons, Pi.add_apply, Int.add_assoc]
        exact hsum ▸ hholds'
      · intro other hother
        rcases List.mem_cons.1 hother with rfl | hother
        · exact hkeeps' _ hfirst hremembers
        · exact hremembers' other hother
      · intro other hnot hother
        rw [List.map_cons, List.mem_cons, not_or] at hnot
        exact hkeeps' other hnot.2 (hkeeps other hnot.1 hother)

theorem reverseFold_holds (h : Additive registry r.accumulator r.tuple r.memory u pairs start)
    (hreversible : r.accumulator.isReversible = true) (hr : r.Holds pairs start n)
    (hremembers : r.Remembers registry u pairs fact) {g : Group}
    (hcall : r.accumulator.reverseFold r.group fact = (.ok (), g)) :
    ({ r with group := g } : Replay).Holds pairs start (n - r.addend registry u pairs fact) ∧
      ∀ other, other.id ≠ fact.id → r.Remembers registry u pairs other →
        ({ r with group := g } : Replay).Remembers registry u pairs other := by
  obtain ⟨units, reverse, back, rfl, hinverse⟩ := h.inverse hreversible
  obtain ⟨k, vars', hk, rfl, htaken⟩ := hinverse.reverseFold_ok hr.2.ints hcall
  obtain ⟨hlength, hshift⟩ := htaken _ (hremembers k hk)
  refine ⟨⟨hlength, hr.2.trans hshift fun x i => Int.add_sub_assoc ..⟩, ?_⟩
  intro other hne hother k hk
  exact hother k ((Group.snapshot?_forget_of_ne hne).symm.trans hk)

theorem reset_holds (h : Additive registry r.accumulator r.tuple r.memory u pairs start) {g : Group}
    (hcall : r.accumulator.reset r.group r.tuple r.memory = (.ok (), g)) :
    ({ r with group := g } : Replay).Holds pairs start 0 := by
  have hvars := h.restart _ _ hcall
  refine ⟨by rw [hvars, h.length], ?_⟩
  dsimp only
  rw [hvars]
  exact .refl h.ints

theorem undo_holds {b : Bool} (h : Additive registry r.accumulator r.tuple r.memory u pairs start)
    (hr : r.Holds pairs start n) (hremembers : r.Remembers registry u pairs fact)
    (hids : (r.live.map fun entry => entry.2.id).Nodup)
    (hi : ∀ entry ∈ r.live, u.Integers registry pairs r.tuple r.memory entry.2.value)
    (hcall : r.undo fact = (.ok b, r')) :
    ∃ g, r' = { r with group := g } ∧ b = !r.accumulator.isReversible ∧
      (b = false → r'.Holds pairs start (n - r.addend registry u pairs fact) ∧
        ∀ other, other.id ≠ fact.id → r.Remembers registry u pairs other → r'.Remembers registry u pairs other) ∧
      (b = true → r'.Holds pairs start (r.liveSum registry u pairs) ∧
        ∀ entry ∈ r.live, r'.Remembers registry u pairs entry.2) := by
  rcases undo_ok hcall with ⟨hreversible, rfl, g, hg, rfl⟩ | ⟨hirreversible, rfl, g₀, hg₀, hall⟩
  · exact ⟨g, rfl, by rw [hreversible]; rfl, fun _ => reverseFold_holds h hreversible hr hremembers hg, nofun⟩
  · have hi' : ∀ fact ∈ r.live.map Prod.snd, u.Integers registry pairs r.tuple r.memory fact.value := by
      intro fact hfact
      obtain ⟨entry, hentry, rfl⟩ := List.mem_map.1 hfact
      exact hi entry hentry
    obtain ⟨g, rfl, hholds, hremembers', -⟩ :=
      foldAll_holds (r := { r with group := g₀ }) h (reset_holds h hg₀) (by rwa [List.map_map]) hi' hall
    refine ⟨g, rfl, by rw [hirreversible]; rfl, nofun, fun _ => ⟨?_, fun entry hentry => ?_⟩⟩
    · simp only [List.map_map, Pi.zero_apply, Int.zero_add] at hholds
      exact hholds
    · exact hremembers' entry.2 (List.mem_map_of_mem hentry)

end Replay

namespace Replay

/-- The variables are those of the start with what the live facts add, and no fact is live twice. -/
structure Balanced (registry : Registry) (u : CompiledUnit) (pairs : Entries String Expr) (start : List Value)
    (first : UInt64) (count : Nat) (r : Replay) : Prop where
  holds : r.Holds pairs start (r.liveSum registry u pairs)
  remembers : ∀ entry ∈ r.live, r.Remembers registry u pairs entry.2
  integers : ∀ entry ∈ r.live, u.Integers registry pairs r.tuple r.memory entry.2.value
  ids : (r.live.map fun entry => entry.2.id).Nodup
  issued : Issued first count r.live r.next

variable {registry : Registry} {u : CompiledUnit} {pairs : Entries String Expr} {start : List Value}
  {first : UInt64} {count index : Nat} {r r' : Replay} {key : String} {v : Value} {b : Bool}

theorem Balanced.identified (hr : r.Balanced registry u pairs start first count) :
    Identified first count r.live r.next :=
  ⟨hr.ids, hr.issued⟩

theorem start_balanced (h : Additive registry r.accumulator r.tuple r.memory u pairs start)
    (hvars : r.group.vars = start) (hlive : r.live = []) : r.Balanced registry u pairs start r.next 0 := by
  have hidentified : Identified r.next 0 r.live r.next := hlive ▸ .none r.next
  refine ⟨⟨by rw [hvars, h.length], ?_⟩, by simp [hlive], by simp [hlive], hidentified.distinct, hidentified.issued⟩
  have hsum : r.liveSum registry u pairs = 0 := by
    funext x
    rw [liveSum, hlive]
    rfl
  rw [hsum, hvars]
  exact .refl h.ints

theorem insert_balanced (h : Additive registry r.accumulator r.tuple r.memory u pairs start)
    (hr : r.Balanced registry u pairs start first count) (hcount : count < UInt64.size)
    (hi : u.Integers registry pairs r.tuple r.memory v) (hcall : r.insert index key v = (.ok (), r')) :
    (∃ g, r' = { r with group := g, live := r.live.put key ⟨r.next, v⟩, next := r.next + 1 }) ∧
      r'.Balanced registry u pairs start first (count + 1) := by
  obtain ⟨hnone, g, hg, rfl⟩ := insert_ok hcall
  have hfold : r.fold ⟨r.next, v⟩ = (.ok (), { r with group := g }) := by
    rw [fold, hg]
    rfl
  obtain ⟨-, -, hholds, hremembers, hkeeps⟩ := fold_holds h hr.holds hi hfold
  have hfresh := hr.issued.fresh hcount
  obtain ⟨-, -, hidentified⟩ := hr.identified.insert hcount hnone (v := v)
  have hput : r.live.put key ⟨r.next, v⟩ = r.live ++ [(key, ⟨r.next, v⟩)] := Entries.put_of_none hnone _
  have hentry (entry : String × Fact) (hentry : entry ∈ r.live.put key ⟨r.next, v⟩) :
      entry ∈ r.live ∨ entry = (key, ⟨r.next, v⟩) := by simpa [hput] using hentry
  refine ⟨⟨g, rfl⟩, ?_, ?_, ?_, hidentified.distinct, hidentified.issued⟩
  · have hsum : (fun x => r.liveSum registry u pairs x + r.addend registry u pairs ⟨r.next, v⟩ x) =
        liveSum registry u pairs
          { r with group := g, live := r.live.put key ⟨r.next, v⟩, next := r.next + 1 } := by
      funext x
      exact (Entries.weigh_put_of_none _ hnone _).symm
    rw [← hsum]
    exact hholds
  · intro entry he
    rcases hentry entry he with hold | rfl
    · exact hkeeps entry.2 (hfresh entry hold) (hr.remembers entry hold)
    · exact hremembers
  · intro entry he
    rcases hentry entry he with hold | rfl
    · exact hr.integers entry hold
    · exact hi

theorem Balanced.others (hr : r.Balanced registry u pairs start first count) {old : Fact}
    (hold : r.live.get? key = some old) :
    Identified first (count + 1) (r.live.erase key) r.next ∧
      ∀ entry ∈ r.live.erase key, entry ∈ r.live ∧ entry.2.id ≠ old.id := by
  obtain ⟨-, hnot, hidentified⟩ := hr.identified.erase hold
  refine ⟨hidentified, fun entry hentry => ⟨?_, fun he => hnot (he ▸ List.mem_map_of_mem hentry)⟩⟩
  exact (Entries.perm_erase hold).mem_iff.2 (List.mem_cons_of_mem _ hentry)

theorem retract_balanced (h : Additive registry r.accumulator r.tuple r.memory u pairs start)
    (hr : r.Balanced registry u pairs start first count) (hcall : r.retract index key = (.ok b, r')) :
    (∃ g, r' = { r with group := g, live := r.live.erase key }) ∧ b = !r.accumulator.isReversible ∧
      r'.Balanced registry u pairs start first (count + 1) := by
  obtain ⟨old, hold, hundo⟩ := retract_ok hcall
  obtain ⟨hidentified, hothers⟩ := hr.others hold
  have hi (entry : String × Fact) (he : entry ∈ r.live.erase key) := hr.integers entry (hothers entry he).1
  obtain ⟨g, rfl, hb, hreversed, hremade⟩ := undo_holds (r := { r with live := r.live.erase key }) h hr.holds
    (hr.remembers _ (Entries.mem_of_get? hold)) hidentified.distinct hi hundo
  refine ⟨⟨g, rfl⟩, hb, ?_, ?_, hi, hidentified.distinct, hidentified.issued⟩
  · cases b with
    | true => exact (hremade rfl).1
    | false =>
      have hsum : (fun x => r.liveSum registry u pairs x - r.addend registry u pairs old x) =
          liveSum registry u pairs { r with group := g, live := r.live.erase key } := by
        funext x
        exact (Entries.weigh_erase _ hold).symm
      rw [← hsum]
      exact (hreversed rfl).1
  · intro entry he
    cases b with
    | true => exact (hremade rfl).2 entry he
    | false =>
      obtain ⟨hmem, hne⟩ := hothers entry he
      exact (hreversed rfl).2 entry.2 hne (hr.remembers entry hmem)

theorem update_balanced (h : Additive registry r.accumulator r.tuple r.memory u pairs start)
    (hr : r.Balanced registry u pairs start first count)
    (hi : u.Integers registry pairs r.tuple r.memory v) (hcall : r.update index key v = (.ok b, r')) :
    (∃ g old, r.live.get? key = some old ∧
        r' = { r with group := g, live := r.live.put key { old with value := v } }) ∧
      b = !r.accumulator.isReversible ∧ r'.Balanced registry u pairs start first (count + 1) := by
  obtain ⟨old, r₁, hold, hundo, hrest⟩ := update_ok hcall
  have hlive := Entries.mem_of_get? hold
  have hput := Entries.perm_put hold { old with value := v }
  have hentry (entry : String × Fact) (hentry : entry ∈ r.live.put key { old with value := v }) :
      entry = (key, { old with value := v }) ∨ entry ∈ r.live ∧ entry.2.id ≠ old.id :=
    (List.mem_cons.1 (hput.mem_iff.1 hentry)).imp_right ((hr.others hold).2 entry)
  obtain ⟨-, hidentified⟩ := hr.identified.update hold v
  have hi' (entry : String × Fact) (he : entry ∈ r.live.put key { old with value := v }) :
      u.Integers registry pairs r.tuple r.memory entry.2.value := by
    rcases hentry entry he with rfl | ⟨hmem, -⟩
    · exact hi
    · exact hr.integers entry hmem
  obtain ⟨g₁, rfl, hb, hreversed, hremade⟩ :=
    undo_holds (r := { r with live := r.live.put key { old with value := v } }) h hr.holds
      (hr.remembers _ hlive) hidentified.distinct hi' hundo
  rcases hrest with ⟨rfl, rfl⟩ | ⟨rfl, hfold⟩
  · obtain ⟨hholds, hremembers⟩ := hremade rfl
    exact ⟨⟨g₁, old, hold, rfl⟩, hb, hholds, hremembers, hi', hidentified.distinct, hidentified.issued⟩
  · obtain ⟨hholds, hkeeps⟩ := hreversed rfl
    obtain ⟨g, rfl, hholds', hremembers, hkeeps'⟩ :=
      fold_holds (r := { r with live := r.live.put key { old with value := v }, group := g₁ }) h hholds hi hfold
    refine ⟨⟨g, old, hold, rfl⟩, hb, ?_, ?_, hi', hidentified.distinct, hidentified.issued⟩
    · have hsum : (fun x => r.liveSum registry u pairs x - r.addend registry u pairs old x +
          r.addend registry u pairs { old with value := v } x) =
            liveSum registry u pairs { r with live := r.live.put key { old with value := v }, group := g } := by
        funext x
        exact (Entries.weigh_put _ hold _).symm
      rw [← hsum]
      exact hholds'
    · intro entry he
      rcases hentry entry he with rfl | ⟨hmem, hne⟩
      · exact hremembers
      · exact hkeeps' entry.2 hne (hkeeps entry.2 hne (hr.remembers entry hmem))

def answerTo (r : Replay) : Action → Option Value
  | .result _ => r.answer.toOption
  | _ => none

theorem step_balanced {action : Action} {o : StepOutcome}
    (h : Additive registry r.accumulator r.tuple r.memory u pairs start)
    (hr : r.Balanced registry u pairs start first count) (hcount : count < UInt64.size)
    (hi : ∀ v ∈ action.payload?, u.Integers registry pairs r.tuple r.memory v)
    (hcall : r.step index action = (.ok o, r')) :
    (∃ g, r' = { r with
        group := g
        live := (action.liveAfter r.live r.next).1
        next := (action.liveAfter r.live r.next).2 }) ∧
      o = r'.outcome index action (r.answerTo action) (action.undoes && !r.accumulator.isReversible) ∧
        r'.Balanced registry u pairs start first (count + 1) := by
  cases action with
  | insert key v =>
    obtain ⟨ho, hr'⟩ := Prod.mk.inj hcall
    obtain ⟨_, hok, rfl⟩ := map_eq_ok.1 ho
    obtain ⟨hg, hbalanced⟩ := insert_balanced h hr hcount (hi v rfl) (Prod.ext hok hr')
    exact ⟨hg, by rw [← hr']; rfl, hbalanced⟩
  | retract key =>
    obtain ⟨ho, hr'⟩ := Prod.mk.inj hcall
    obtain ⟨b, hok, rfl⟩ := map_eq_ok.1 ho
    obtain ⟨hg, hb, hbalanced⟩ := retract_balanced h hr (Prod.ext hok hr')
    exact ⟨hg, by rw [← hr', hb]; rfl, hbalanced⟩
  | update key v =>
    obtain ⟨ho, hr'⟩ := Prod.mk.inj hcall
    obtain ⟨b, hok, rfl⟩ := map_eq_ok.1 ho
    obtain ⟨⟨g, old, hold, hg⟩, hb, hbalanced⟩ := update_balanced h hr (hi v rfl) (Prod.ext hok hr')
    exact ⟨⟨g, by rw [hg, Action.liveAfter, hold]⟩, by rw [← hr', hb]; rfl, hbalanced⟩
  | result expected =>
    obtain ⟨ho, rfl⟩ := Prod.mk.inj hcall
    obtain ⟨v, hv, rfl⟩ := map_eq_ok.1 ho
    refine ⟨⟨r.group, rfl⟩, by rw [answerTo, hv]; rfl, hr.holds, hr.remembers, hr.integers, hr.ids, ?_⟩
    exact hr.issued.mono fun entry he => ⟨entry, he, rfl⟩

structure Beside (r r' : Replay) : Prop where
  init : r'.accumulator.init = r.accumulator.init
  tuple : r'.tuple = r.tuple
  memory : r'.memory = r.memory
  live : r'.live = r.live
  next : r'.next = r.next
  answers : ∀ g g', g'.vars = g.vars →
    r'.accumulator.answer g' r.tuple r.memory = r.accumulator.answer g r.tuple r.memory

theorem Balanced.vars_eq (h : Additive registry r.accumulator r.tuple r.memory u pairs start)
    (hr : r.Balanced registry u pairs start first count) (hr' : r'.Balanced registry u pairs start first count)
    (hb : r.Beside r') : r'.group.vars = r.group.vars := by
  obtain ⟨hlength, hshift⟩ := hr.holds
  obtain ⟨hlength', hshift'⟩ := hr'.holds
  have hsum : r'.liveSum registry u pairs = r.liveSum registry u pairs := by
    funext x
    simp only [liveSum, addend, hb.tuple, hb.memory, hb.live]
  rw [hb.init] at hlength' hshift'
  rw [hsum] at hshift'
  exact Shifted.unique (h.adds.others ▸ h.adds.valid.others_nodup) hlength' hlength hshift' hshift

theorem steps_agree {steps : List Step} {os os' : List StepOutcome}
    (hr : r.Balanced registry u pairs start first count) (hr' : r'.Balanced registry u pairs start first count)
    (h : Additive registry r.accumulator r.tuple r.memory u pairs start)
    (h' : Additive registry r'.accumulator r'.tuple r'.memory u pairs start)
    (hb : r.Beside r') (hreversible : r.accumulator.isReversible = true)
    (hirreversible : r'.accumulator.isReversible = false) (hcount : count + steps.length ≤ UInt64.size)
    (hi : ∀ step ∈ steps, ∀ action ∈ step.actions, ∀ v ∈ action.payload?,
      u.Integers registry pairs r.tuple r.memory v)
    (hrun : r.steps index steps = .ok os) (hrun' : r'.steps index steps = .ok os') :
    (∀ o ∈ os, o.recomputed = false) ∧ os' = os.map fun o => { o with recomputed := o.action.undoes } := by
  induction steps generalizing r r' index count os os' with
  | nil =>
    cases hrun
    cases hrun'
    exact ⟨by simp, rfl⟩
  | cons step rest ih =>
    obtain ⟨action, ha, hrun⟩ := bind_eq_ok.1 hrun
    obtain ⟨action', ha', hrun'⟩ := bind_eq_ok.1 hrun'
    obtain rfl : action = action' := Except.ok.inj (ha.symm.trans ha')
    have haction : action ∈ step.actions := by simp [Step.actions_of_action ha]
    have hi₁ := hi step (List.mem_cons_self ..) action haction
    rw [List.length_cons] at hcount
    have hcount₁ : count < UInt64.size := by omega
    rcases hs : r.step index action with ⟨e | o, r₁⟩
    · simp [hs] at hrun
    rcases hs' : r'.step index action with ⟨e | o', r₁'⟩
    · simp [hs'] at hrun'
    simp only [hs] at hrun
    simp only [hs'] at hrun'
    obtain ⟨more, hmore, hrun⟩ := bind_eq_ok.1 hrun
    obtain ⟨more', hmore', hrun'⟩ := bind_eq_ok.1 hrun'
    cases hrun
    cases hrun'
    obtain ⟨⟨g, hg⟩, rfl, hbalanced⟩ := step_balanced h hr hcount₁ hi₁ hs
    obtain ⟨⟨g', hg'⟩, rfl, hbalanced'⟩ :=
      step_balanced h' hr' hcount₁ (by rw [hb.tuple, hb.memory]; exact hi₁) hs'
    have hb₁ : r₁.Beside r₁' := by
      rw [hg, hg']
      exact ⟨hb.init, hb.tuple, hb.memory, by simp only [hb.live, hb.next], by simp only [hb.live, hb.next],
        hb.answers⟩
    have h₁ : Additive registry r₁.accumulator r₁.tuple r₁.memory u pairs start := by
      rw [hg]
      exact h
    obtain ⟨hfalse, hmap⟩ := ih hbalanced hbalanced' h₁ (by rw [hg']; exact h') hb₁ (by rw [hg]; exact hreversible)
      (by rw [hg']; exact hirreversible) (by omega)
      (by rw [hg]; exact fun step hstep => hi step (List.mem_cons_of_mem _ hstep)) hmore hmore'
    have hvars : r₁'.group.vars = r₁.group.vars := hbalanced.vars_eq h₁ hbalanced' hb₁
    have hanswer : r'.answerTo action = r.answerTo action := by
      cases action with
      | result expected =>
        simp only [answerTo, answer, hb.tuple, hb.memory, hb.answers _ _ (hr.vars_eq h hr' hb)]
      | _ => rfl
    refine ⟨?_, ?_⟩
    · intro o ho
      rcases List.mem_cons.1 ho with rfl | ho
      · simp [outcome, hreversible]
      · exact hfalse o ho
    · rw [List.map_cons, ← hmap]
      simp [outcome, hirreversible, hanswer, hvars, hb₁.init]

end Replay

end FactFold
