import FactFold.Proofs.Accumulator.Fits

/-!
What a group keeps can be read off the calls that were made on it, whether they worked or failed: a fact has a
snapshot exactly while its fold is open, and the snapshot is the context that the latest fold of it came to.
-/

namespace FactFold

inductive Call where
  | reset (tuple : List Fact) (memory : Memory)
  | accumulate (tuple : List Fact) (fact : Fact) (memory : Memory)
  | reverseFold (fact : Fact)
  | answer (tuple : List Fact) (memory : Memory)

namespace Accumulator

def call (a : Accumulator) (g : Group) : Call → Folded (Option Value)
  | .reset tuple memory => (a.reset g tuple memory).map (·.map fun _ => none) id
  | .accumulate tuple fact memory => (a.accumulate g tuple fact memory).map (·.map fun _ => none) id
  | .reverseFold fact => (a.reverseFold g fact).map (·.map fun _ => none) id
  | .answer tuple memory => ((a.answer g tuple memory).map some, g)

def behind (a : Accumulator) (g : Group) (calls : List Call) : Group :=
  calls.foldl (fun g c => (a.call g c).2) g

variable {a : Accumulator} {g : Group} {calls : List Call} {c : Call}

theorem behind_append (a : Accumulator) (g : Group) (calls more : List Call) :
    a.behind g (calls ++ more) = a.behind (a.behind g calls) more :=
  List.foldl_append

theorem behind_snoc (a : Accumulator) (g : Group) (calls : List Call) (c : Call) :
    a.behind g (calls ++ [c]) = (a.call (a.behind g calls) c).2 :=
  behind_append a g calls [c]

theorem call_reachable (hg : Reachable a g) (c : Call) : Reachable a (a.call g c).2 := by
  cases c with
  | reset tuple memory => exact hg.reset tuple memory
  | accumulate tuple fact memory => exact hg.accumulate tuple fact memory
  | reverseFold fact => exact hg.reverseFold fact
  | answer tuple memory => exact hg

theorem behind_reachable (hg : Reachable a g) (calls : List Call) : Reachable a (a.behind g calls) := by
  induction calls generalizing g with
  | nil => exact hg
  | cons c calls ih => exact ih (call_reachable hg c)

/-- A call of the one kind was made, and none of the other kind after it. What kind a call is of may depend on
the group that it is made on. -/
def Since (a : Accumulator) (calls : List Call) (P Q : Group → Call → Prop) : Prop :=
  ∃ before c later, calls = before ++ c :: later ∧ P (a.behind a.group before) c ∧
    ∀ between next rest, later = between ++ next :: rest →
      ¬ Q (a.behind a.group (before ++ c :: between)) next

variable {P P' Q Q' : Group → Call → Prop}

theorem since_nil : ¬ a.Since [] P Q := by
  rintro ⟨before, c, later, h, -⟩
  simp at h

theorem since_snoc :
    a.Since (calls ++ [c]) P Q ↔
      P (a.behind a.group calls) c ∨ a.Since calls P Q ∧ ¬ Q (a.behind a.group calls) c := by
  constructor
  · rintro ⟨before, d, later, h, hP, hQ⟩
    rcases List.eq_nil_or_concat later with rfl | ⟨later, e, rfl⟩
    · obtain ⟨rfl, hd⟩ := List.append_inj' h rfl
      cases hd
      exact .inl hP
    · rw [List.concat_eq_append, ← List.cons_append, ← List.append_assoc] at h
      obtain ⟨rfl, he⟩ := List.append_inj' h rfl
      cases he
      have hlast := hQ later c [] (List.concat_eq_append ..)
      refine .inr ⟨⟨before, d, later, rfl, hP, fun between next rest hl => ?_⟩, hlast⟩
      exact hQ between next (rest ++ [c]) (by simp [hl])
  · rintro (hP | ⟨⟨before, d, later, rfl, hP, hQ⟩, hc⟩)
    · exact ⟨calls, c, [], rfl, hP, by simp⟩
    · refine ⟨before, d, later ++ [c], by simp, hP, fun between next rest hl => ?_⟩
      rcases List.eq_nil_or_concat rest with rfl | ⟨rest, e, rfl⟩
      · obtain ⟨rfl, he⟩ := List.append_inj' hl rfl
        cases he
        exact hc
      · rw [List.concat_eq_append, ← List.cons_append, ← List.append_assoc] at hl
        exact hQ between next rest (List.append_inj' hl rfl).1

end Accumulator

namespace Call

def Folds (units : CompiledUnits) (g : Group) (fact : UInt64) (left : Context) : Call → Prop
  | accumulate tuple source memory => source.id = fact ∧
      ∃ k, units.action.context (some source) tuple memory g.vars = .ok k ∧ (units.action.run k).frame = left
  | _ => False

def Ends (a : Accumulator) (g : Group) (fact : UInt64) : Call → Prop
  | reset tuple memory => (a.reset g tuple memory).1 = .ok ()
  | reverseFold source => source.id = fact
  | _ => False

end Call

namespace Accumulator

def Open (a : Accumulator) (units : CompiledUnits) (calls : List Call) (fact : UInt64) : Prop :=
  a.Since calls (fun g c => ∃ left, c.Folds units g fact left) fun g c => c.Ends a g fact

def Latest (a : Accumulator) (units : CompiledUnits) (calls : List Call) (fact : UInt64) (left : Context) : Prop :=
  a.Since calls (fun g c => c.Folds units g fact left) fun g c =>
    c.Ends a g fact ∨ ∃ left', c.Folds units g fact left'

variable {a : Accumulator} {units : CompiledUnits} {g : Group} {calls : List Call} {c : Call} {fact : UInt64}
  {left : Context} {config : Config} {registry : Registry}

theorem latest_snoc :
    a.Latest units (calls ++ [c]) fact left ↔
      c.Folds units (a.behind a.group calls) fact left ∨ a.Latest units calls fact left ∧
        ¬ (c.Ends a (a.behind a.group calls) fact ∨
          ∃ left', c.Folds units (a.behind a.group calls) fact left') :=
  since_snoc

theorem open_iff : a.Open units calls fact ↔ ∃ left, a.Latest units calls fact left := by
  induction calls using List.reverseRecOn with
  | nil =>
    constructor
    · intro h
      exact (since_nil h).elim
    · rintro ⟨left, h⟩
      exact (since_nil h).elim
  | append_singleton calls c ih =>
    unfold Open Latest at *
    simp only [since_snoc, ih]
    by_cases hf : ∃ left, c.Folds units (a.behind a.group calls) fact left
    · simp [hf]
    · simp only [not_exists] at hf
      simp [hf]

theorem reverseFold_of_snapshot {reverse : CompiledUnit} {source : Fact} {k k' : Context}
    (hu : a.compiled = some units) (hreverse : units.reverse = some reverse)
    (hs : g.snapshot? source.id = some k) (hset : k.setOthers g.vars = .ok k') :
    a.reverseFold g source =
      match reverse.run k' with
      | ⟨.ok _, left⟩ => (.ok (), { g.forget source.id with vars := left.others })
      | ⟨.error e, _⟩ => (.error (.run e), g.forget source.id) := by
  simp only [reverseFold, hu, hreverse, hs, hset]
  rcases reverse.run k' with ⟨e | v, left⟩ <;> rfl

theorem reverseFold_of_none {reverse : CompiledUnit} {source : Fact} (hu : a.compiled = some units)
    (hreverse : units.reverse = some reverse) (hs : g.snapshot? source.id = none) :
    a.reverseFold g source = (.error (.noSnapshot source.id), g) := by
  simp only [reverseFold, hu, hreverse, hs]

theorem reverseFold_noSnapshot {reverse : CompiledUnit} {source : Fact} (hu : a.compiled = some units)
    (hreverse : units.reverse = some reverse) :
    (a.reverseFold g source).1 = .error (.noSnapshot source.id) ↔ g.snapshot? source.id = none := by
  refine ⟨fun h => ?_, fun hs => by rw [reverseFold_of_none hu hreverse hs]⟩
  unfold reverseFold at h
  simp only [hu, hreverse] at h
  split at h
  · assumption
  · split at h
    · cases h
    · split at h <;> cases h

theorem reverseFold_snapshot? {reverse : CompiledUnit} {source : Fact} (hu : a.compiled = some units)
    (hreverse : units.reverse = some reverse) (hg : g.Sound a) :
    (a.reverseFold g source).2.snapshot? fact = if source.id = fact then none else g.snapshot? fact := by
  have hforget : (g.forget source.id).snapshot? fact = if source.id = fact then none else g.snapshot? fact := by
    split
    · next hid => rw [← hid, hg.snapshot?_forget]
    · next hid => rw [Group.snapshot?_forget_of_ne (Ne.symm hid)]
  cases hs : g.snapshot? source.id with
  | none =>
    rw [reverseFold_of_none hu hreverse hs]
    split
    · next hid => rw [← hid, hs]
    · rfl
  | some k =>
    rw [← hforget]
    unfold reverseFold
    simp only [hu, hreverse, hs]
    split
    · rfl
    · split <;> rfl

theorem call_snapshot? {reverse : CompiledUnit} (hu : a.compiled = some units)
    (hreverse : units.reverse = some reverse) (hg : g.Sound a) (hkept : g.snapshots.isSome = true) :
    (a.call g c).2.snapshot? fact = some left ↔
      c.Folds units g fact left ∨
        g.snapshot? fact = some left ∧ ¬ (c.Ends a g fact ∨ ∃ left', c.Folds units g fact left') := by
  cases c with
  | reset tuple memory =>
    change (a.reset g tuple memory).2.snapshot? fact = some left ↔ _
    rcases reset_cases a g tuple memory with ⟨e, he⟩ | ⟨_, _, _, left', -, -, -, hr⟩
    · simp [he, Call.Folds, Call.Ends]
    · simp [hr, Call.Folds, Call.Ends, Group.snapshot?_cleared]
  | accumulate tuple source memory =>
    change (a.accumulate g tuple source memory).2.snapshot? fact = some left ↔ _
    cases hk : units.action.context (some source) tuple memory g.vars with
    | error e => simp [accumulate, hu, hk, Call.Folds, Call.Ends]
    | ok k =>
      have hsnapshot : (a.accumulate g tuple source memory).2.snapshot? fact =
          (g.remember source.id (units.action.run k).frame).snapshot? fact := by
        simp only [accumulate, hu, hk]
        split <;> rfl
      rw [hsnapshot]
      by_cases hid : source.id = fact
      · subst hid
        simp [Group.snapshot?_remember hkept, Call.Folds, Call.Ends, hk]
      · simp [Group.snapshot?_remember_of_ne (Ne.symm hid), Call.Folds, Call.Ends, hid]
  | reverseFold source =>
    change (a.reverseFold g source).2.snapshot? fact = some left ↔ _
    rw [reverseFold_snapshot? hu hreverse hg]
    by_cases hid : source.id = fact <;> simp [Call.Folds, Call.Ends, hid]
  | answer tuple memory => simp [call, Call.Folds, Call.Ends]

theorem behind_snapshot? (h : a.Made config registry units) (hreversible : a.isReversible = true)
    (calls : List Call) (fact : UInt64) (left : Context) :
    (a.behind a.group calls).snapshot? fact = some left ↔ a.Latest units calls fact left := by
  obtain ⟨reverse, hreverse⟩ := h.reverse_isSome hreversible
  induction calls using List.reverseRecOn with
  | nil =>
    refine ⟨fun hs => ?_, fun hl => (since_nil hl).elim⟩
    simp [behind, Group.snapshot?, group, hreversible, Entries.get?] at hs
  | append_singleton calls c ih =>
    have hg := (behind_reachable (.new a) calls).sound
    rw [behind_snoc, call_snapshot? h.compiled hreverse hg (hg.kept.trans hreversible), ih, latest_snoc]

theorem Latest.origin (h : a.Latest units calls fact left) :
    ∃ (g : Group) (tuple : List Fact) (source : Fact) (memory : Memory) (k : Context), source.id = fact ∧
      units.action.context (some source) tuple memory g.vars = .ok k ∧ (units.action.run k).frame = left := by
  obtain ⟨before, c, -, -, hfold, -⟩ := h
  cases c with
  | accumulate tuple source memory =>
    obtain ⟨hid, k, hk, hleft⟩ := hfold
    exact ⟨_, tuple, source, memory, k, hid, hk, hleft⟩
  | _ => exact hfold.elim

theorem call_fits (h : a.Made config registry units) (hg : g.Sound a) (hfits : g.Fits units) (c : Call) :
    (a.call g c).2.Fits units := by
  cases c with
  | reset tuple memory =>
    change (a.reset g tuple memory).2.Fits units
    rcases reset_cases a g tuple memory with ⟨e, he⟩ | ⟨_, _, _, _, -, -, -, hr⟩
    · rwa [he]
    · rw [hr]
      exact h.reset_fits hr
  | accumulate tuple source memory => exact h.accumulate_fits hfits tuple source memory
  | reverseFold source => exact h.reverseFold_fits hg hfits source
  | answer tuple memory => exact hfits

theorem behind_fits (h : a.Made config registry units) (hg : Reachable a g) (hfits : g.Fits units)
    (calls : List Call) : (a.behind g calls).Fits units := by
  induction calls generalizing g with
  | nil => exact hfits
  | cons c calls ih => exact ih (call_reachable hg c) (call_fits h hg.sound hfits c)

theorem call_fits_of_empty (h : a.Made config registry units)
    (hempty : ∀ fact, g.snapshot? fact = none) (c : Call) :
    (a.call g c).2.Fits units ∨ ∀ fact, (a.call g c).2.snapshot? fact = none := by
  cases c with
  | reset tuple memory =>
    change (a.reset g tuple memory).2.Fits units ∨ ∀ fact, (a.reset g tuple memory).2.snapshot? fact = none
    rcases reset_cases a g tuple memory with ⟨e, he⟩ | ⟨_, _, _, _, -, -, -, hr⟩
    · rw [he]
      exact .inr hempty
    · rw [hr]
      exact .inl (h.reset_fits hr)
  | accumulate tuple source memory =>
    rcases accumulate_cases a g tuple source memory with ⟨e, -, he⟩ | ⟨units', k, hu, hk, -⟩
    · exact .inr (by simpa [call, he] using hempty)
    · obtain rfl := h.units_unique hu
      obtain ⟨front, hsplits, -⟩ := h.valid.2.1.context hk
      have hfits : g.Fits units := ⟨hsplits.vars, fun fact k hk => by simp [hempty] at hk⟩
      exact .inl (h.accumulate_fits hfits tuple source memory)
  | reverseFold source =>
    rcases reverseFold_cases a g source with ⟨e, -, he⟩ | ⟨_, _, k, -, -, hs, -⟩
    · exact .inr (by simpa [call, he] using hempty)
    · simp [hempty] at hs
  | answer tuple memory => exact .inr hempty

theorem behind_fits_of_snapshot (h : a.Made config registry units) {k : Context}
    (hs : (a.behind a.group calls).snapshot? fact = some k) : (a.behind a.group calls).Fits units := by
  have hboth : (a.behind a.group calls).Fits units ∨ ∀ fact, (a.behind a.group calls).snapshot? fact = none := by
    clear hs
    induction calls using List.reverseRecOn with
    | nil =>
      refine .inr fun fact => ?_
      cases hr : a.isReversible <;> simp [behind, group, Group.snapshot?, Entries.get?, hr]
    | append_singleton calls c ih =>
      have hg := (behind_reachable (.new a) calls).sound
      rw [behind_snoc]
      rcases ih with hfits | hempty
      · exact .inl (call_fits h hg hfits c)
      · exact call_fits_of_empty h hempty c
  refine hboth.resolve_right fun hempty => ?_
  simp [hempty] at hs

end Accumulator

theorem SlotLayout.stop_le (l : SlotLayout) {s : Segment} (hs : s ≠ .other) : l.stop s ≤ l.start .other := by
  cases s <;> simp only [stop, start, length] <;> first | omega | exact absurd rfl hs

namespace Context

variable {k k' : Context} {values : List Value} {s : Segment}

theorem segment_eq_take (k : Context) (hs : s ≠ .other) :
    k.segment s =
      ((k.slots.take (k.layout.start .other)).drop (k.layout.start s)).take (k.layout.length s) := by
  have hstop : k.layout.start s + k.layout.length s ≤ k.layout.start .other := k.layout.stop_le hs
  rw [segment, List.drop_take, List.take_take, Nat.min_eq_left (by omega)]

theorem setOthers_segment {l : SlotLayout} (hk : k.shape = (l, l.size)) (h : k.setOthers values = .ok k') :
    k'.others = values ∧ (∀ s, s ≠ .other → k'.segment s = k.segment s) ∧ k'.scope = k.scope ∧
      k'.inputs = k.inputs := by
  obtain ⟨rfl, hsize⟩ := Prod.mk.inj hk
  have hslots : k.slots.length = k.layout.start .other + k.layout.other := hsize
  have hfront : (k.slots.take (k.layout.start .other)).length = k.layout.start .other := by
    rw [List.length_take]
    omega
  unfold setOthers at h
  split at h
  · next hlength =>
    obtain rfl := Except.ok.inj h
    refine ⟨?_, fun s hs => ?_, rfl, rfl⟩
    · rw [others, segment, List.append_assoc, List.drop_left' hfront, SlotLayout.length, ← hlength, List.take_left]
    · rw [segment_eq_take _ hs, segment_eq_take k hs, List.append_assoc, List.take_left' hfront]
  · cases h

end Context

theorem Group.Sound.cleared_eq {a : Accumulator} {g : Group} (hg : g.Sound a) (vars : List Value) :
    g.cleared vars = a.group.cleared vars := by
  have hsnapshots : (g.snapshots.map fun _ => ([] : Entries UInt64 Context)) = a.group.snapshots.map fun _ => [] := by
    have hkept := hg.kept
    cases hs : g.snapshots <;> cases hr : a.isReversible <;> simp_all [Accumulator.group]
  rw [Group.cleared, Group.cleared, hg.names, hsnapshots]
  rfl

namespace Accumulator

variable {a : Accumulator} {units : CompiledUnits} {g : Group} {config : Config} {registry : Registry}

theorem reset_eq_new (hg : g.Sound a) (tuple : List Fact) (memory : Memory) :
    (a.reset g tuple memory).1 = (a.reset a.group tuple memory).1 ∧
      ((a.reset a.group tuple memory).1 = .ok () →
        a.reset g tuple memory = a.reset a.group tuple memory) := by
  unfold reset
  split
  · simp
  · split
    · simp
    · split
      · simp
      · exact ⟨rfl, fun _ => congrArg (Prod.mk _) (hg.cleared_eq _)⟩

/-- The reversal of a fact is refused exactly if its fold is not open. If it is, the reversing unit runs on what
the latest fold of the fact came to, with the variables of now, whatever was done with other facts since. And
setting up a group anew comes to the same as on a new group. -/
theorem reversal_by_history (h : a.Made config registry units) (hreversible : a.isReversible = true)
    (calls : List Call) (fact : Fact) :
    ((a.reverseFold (a.behind a.group calls) fact).1 = .error (.noSnapshot fact.id) ↔
        ¬ a.Open units calls fact.id) ∧
      (a.Open units calls fact.id → ∃ left, a.Latest units calls fact.id left) ∧
      (∀ left, a.Latest units calls fact.id left →
        ∃ reverse k, units.reverse = some reverse ∧ k.others = (a.behind a.group calls).vars ∧
          (∀ s, s ≠ .other → k.segment s = left.segment s) ∧ k.scope = left.scope ∧ k.inputs = left.inputs ∧
          k.shape = left.shape ∧
          a.reverseFold (a.behind a.group calls) fact =
            match reverse.run k with
            | ⟨.ok _, last⟩ => (.ok (), { (a.behind a.group calls).forget fact.id with vars := last.others })
            | ⟨.error e, _⟩ => (.error (.run e), (a.behind a.group calls).forget fact.id)) ∧
      ∀ tuple memory, (a.reset (a.behind a.group calls) tuple memory).1 = (a.reset a.group tuple memory).1 ∧
        ((a.reset a.group tuple memory).1 = .ok () →
          a.reset (a.behind a.group calls) tuple memory = a.reset a.group tuple memory) := by
  obtain ⟨reverse, hreverse⟩ := h.reverse_isSome hreversible
  refine ⟨?_, open_iff.1, fun left hleft => ?_, reset_eq_new (behind_reachable (.new a) calls).sound⟩
  · rw [reverseFold_noSnapshot h.compiled hreverse, open_iff, Option.eq_none_iff_forall_ne_some, not_exists]
    exact forall_congr' fun left => not_congr (behind_snapshot? h hreversible calls fact.id left)
  · have hs := (behind_snapshot? h hreversible calls fact.id left).2 hleft
    have hfits := behind_fits_of_snapshot h hs
    have hshape := hfits.snapshots fact.id left hs
    obtain ⟨k, hset, hk⟩ := Context.setOthers_eq_ok hshape hfits.vars
    obtain ⟨hothers, hsegments, hscope, hinputs⟩ := Context.setOthers_segment hshape hset
    exact ⟨reverse, k, hreverse, hothers, hsegments, hscope, hinputs, hk.trans hshape.symm,
      reverseFold_of_snapshot h.compiled hreverse hs hset⟩

def sumCalls : List Call :=
  [.reset [] {}, .accumulate [] ⟨1, .int 5⟩ {}, .accumulate [] ⟨2, .int 7⟩ {}, .reverseFold ⟨1, .null⟩]

theorem reversal_by_history_sum :
    ¬ sum.Open sumUnits sumCalls 1 ∧ ∃ left k : Context, sum.Latest sumUnits sumCalls 2 left ∧
      k.others = [.int 7] ∧ k.segment .locals = left.segment .locals := by
  have hmade : sum.Made {} sumRegistry sumUnits := ⟨rfl, sum_units⟩
  obtain ⟨hclosed, -⟩ := reversal_by_history hmade rfl sumCalls ⟨1, .null⟩
  obtain ⟨hopen, hlatest, hruns, -⟩ := reversal_by_history hmade rfl sumCalls ⟨2, .null⟩
  have hworks : (sum.reverseFold (sum.behind sum.group sumCalls) ⟨2, .null⟩).1 = .ok () := rfl
  have htwo : sum.Open sumUnits sumCalls 2 := by
    by_contra hnot
    rw [hworks] at hopen
    cases hopen.2 hnot
  obtain ⟨left, hleft⟩ := hlatest htwo
  obtain ⟨_, k, -, hothers, hsegments, -⟩ := hruns left hleft
  exact ⟨hclosed.1 rfl, left, k, hleft, hothers, hsegments .locals (by decide)⟩

end Accumulator

end FactFold
