import FactFold.Proofs.Accumulator.Histories
import FactFold.Proofs.Script.Refusals

/-!
The reversing unit runs on contexts that were made for the folding one. They have the same names in the same
slots, so that no run reads or writes beside the layout, however the calls on a group are mixed.
-/

namespace FactFold

open Script

def RunError.isLayoutFault : RunError → Bool
  | .invalidSlot _ => true
  | .invalidOperand .. => true
  | .stackUnderflow _ => true
  | _ => false

def FoldError.isLayoutFault : FoldError → Bool
  | .notCompiled => true
  | .run e => e.isLayoutFault
  | .context ⟨_, .otherCount _ _⟩ => true
  | _ => false

theorem RunError.not_layoutFault {e : RunError} (hframe : e.ofFrame = false) (hfault : e.isFault = false) :
    e.isLayoutFault = false := by
  cases e with
  | invalidSlot => cases hframe
  | invalidOperand => cases hfault
  | stackUnderflow => cases hfault
  | _ => rfl

namespace Context

structure Suits (k : Context) (u : CompiledUnit) : Prop where
  inputs : k.inputs = u.inputs
  shape : k.shape = (u.layout, u.layout.size)

section

variable {k k' : Context} {name : String} {slot : Nat} {v : Value}

theorem inputs_writeSlot (h : k.writeSlot slot v = .ok k') : k'.inputs = k.inputs := by
  unfold writeSlot at h
  split at h
  · rw [← Except.ok.inj h]
  · cases h

theorem inputs_writeName (h : k.writeName name v = .ok k') : k'.inputs = k.inputs := by
  unfold writeName at h
  split at h
  · exact inputs_writeSlot h
  · split at h <;> rw [← Except.ok.inj h]

theorem inputs_declare (h : k.declare name v = .ok k') : k'.inputs = k.inputs := by
  unfold declare at h
  split at h
  · split at h
    · cases h
    · exact inputs_writeSlot h
  · rw [← Except.ok.inj h]

theorem inputs_after {write : Except RunError Context} (h : ∀ k', write = .ok k' → k'.inputs = k.inputs) :
    (k.after write).2.inputs = k.inputs := by
  cases write with
  | error e => rfl
  | ok k' => exact h k' rfl

end

theorem preserved_suits (u : CompiledUnit) : Preserved fun k : Context => k.Suits u where
  storeSlot k slot v h := ⟨(inputs_after fun _ => inputs_writeSlot).trans h.inputs,
    (preserved_shape _).storeSlot k slot v h.shape⟩
  storeName k name v h := ⟨(inputs_after fun _ => inputs_writeName).trans h.inputs,
    (preserved_shape _).storeName k name v h.shape⟩
  declare k name v type h := ⟨(inputs_after fun _ => inputs_declare).trans h.inputs,
    (preserved_shape _).declare k name v type h.shape⟩

variable {k : Context} {u v : CompiledUnit} {r : Registry} {i : Nat} {slot : UInt16} {type : ValueType}
  {name : String} {m : Machine} {op : Op} {stack : List Value} {e : RunError}

theorem Suits.of_same (h : k.Suits u) (hi : v.inputs = u.inputs) (hl : v.layout = u.layout) : k.Suits v :=
  ⟨h.inputs.trans hi.symm, by rw [h.shape, hl]⟩

theorem Suits.setOthers {values : List Value} (h : k.Suits u) (hl : values.length = u.layout.other) :
    ∃ k', k.setOthers values = .ok k' ∧ k'.Suits u ∧ k'.others = values := by
  obtain ⟨k', hset, hshape⟩ := setOthers_eq_ok h.shape hl
  obtain ⟨hothers, -, -, hinputs⟩ := setOthers_segment h.shape hset
  exact ⟨k', hset, ⟨hinputs.trans h.inputs, hshape⟩, hothers⟩

theorem Suits.slots_length (h : k.Suits u) : k.slots.length = u.layout.size :=
  (Prod.mk.inj h.shape).2

theorem Suits.writeSlot (h : k.Suits u) (hi : i < u.layout.size) (v : Value) : ∃ k', k.writeSlot i v = .ok k' :=
  ⟨_, if_pos (h.slots_length ▸ hi)⟩

theorem Suits.slot_of_input (hk : k.Suits u) (hu : u.Valid) (hi : u.plan.inputs[i]? = some name) :
    k.slot? name = some i := by
  rw [slot?, hk.inputs, CompiledUnit.position?_eq hu]
  exact findIdx?_of_getElem? hu.once hi

theorem Suits.slot_of_notMem (hk : k.Suits u) (hu : u.Valid) (hn : name ∉ u.plan.inputs) : k.slot? name = none := by
  rw [slot?, hk.inputs, CompiledUnit.position?_eq hu, List.findIdx?_eq_none_iff]
  rintro other hother
  exact beq_eq_false_iff_ne.2 fun he => hn (he ▸ hother)

theorem Suits.slot_lt (h : k.Suits u) (hu : u.Valid) (hi : k.slot? name = some i) : i < u.layout.size := by
  rw [slot?, h.inputs, CompiledUnit.position?_eq hu] at hi
  rw [← hu.inputs_length]
  exact (List.findIdx?_eq_some_iff_getElem.1 hi).1

end Context

theorem CompiledUnit.Valid.input_lt {u : CompiledUnit} {r : Registry} {name : String} {slot : UInt16}
    {type : ValueType} (h : u.Valid) (hi : (u.compiler r).symbols.input name = some (slot, type)) :
    slot.toNat < u.layout.size := by
  rw [input_eq, position?_eq h] at hi
  split at hi
  · next i _ hpos _ =>
    split at hi
    · next hlt =>
      cases hi
      have hslot : (UInt16.ofNat i).toNat = i := UInt16.toNat_ofNat_of_lt hlt
      rw [hslot, ← h.inputs_length]
      exact (List.findIdx?_eq_some_iff_getElem.1 hpos).1
    · cases hi
  · cases hi

theorem Context.Suits.refused {k : Context} {u : CompiledUnit} {r : Registry} {m : Machine} {op : Op}
    {stack : List Value} {e : RunError} (h : k.Suits u) (hu : u.Valid) (hop : op.Slotted (u.compiler r))
    (hno : op.Refused m k e stack) : e.isLayoutFault = false := by
  have hwritten {i : Nat} {v : Value} (hi : i < u.layout.size) : k.writeSlot i v ≠ .error e := by
    obtain ⟨k', hk'⟩ := h.writeSlot hi v
    simp [hk']
  have hafter {write : Except RunError Context} (answer : (k.after write).1 = .error e) : write = .error e := by
    cases write with
    | ok k' => cases answer
    | error e' =>
      cases answer
      rfl
  cases hno with
  | @loadSlot slot _ answer =>
    obtain ⟨name, type, hi⟩ := hop
    have hlt := hu.input_lt hi
    rw [← h.slots_length] at hlt
    have hread : k.readSlot slot = .error e := answer
    rw [Context.readSlot, List.getElem?_eq_getElem hlt] at hread
    cases hread
  | @storeSlot slot v _ answer =>
    obtain ⟨name, type, hi⟩ := hop
    exact absurd (hafter answer) (hwritten (hu.input_lt hi))
  | @loadName _ name _ _ answer =>
    have hread : k.resolve name = .error e := answer
    unfold Context.resolve at hread
    split at hread
    · cases hread
    · cases hread
      rfl
  | @storeName _ name v _ _ answer =>
    have hwrite := hafter answer
    unfold Context.writeName at hwrite
    split at hwrite
    · next slot hslot => exact absurd hwrite (hwritten (h.slot_lt hu hslot))
    · split at hwrite <;> cases hwrite
  | @declare _ _ _ name v _ _ _ _ answer =>
    have hdeclare := hafter answer
    unfold Context.declare at hdeclare
    split at hdeclare
    · next slot _ hslot _ =>
      split at hdeclare
      · cases hdeclare
        rfl
      · exact absurd hdeclare (hwritten (h.slot_lt hu hslot))
    · cases hdeclare

namespace CompiledUnit

variable {u : CompiledUnit} {p : Plan} {config : Config} {r : Registry} {k : Context} {fact : Option Fact}
  {tuple : List Fact} {memory : Memory} {vars : List Value}

def FromSource (config : Config) (r : Registry) (u : CompiledUnit) : Prop :=
  (u.compiler r).source config.maxNestingDepth.toNat (Text.trim u.plan.expression) = .ok u.program

theorem fromSource (hu : p.compile config r = .ok u) : u.FromSource config r := by
  obtain ⟨hplan, -, -, hsource⟩ := compile_steps hu
  rw [FromSource, hplan]
  exact hsource

theorem run_suits (h : k.Suits u) : (u.run k).frame.Suits u :=
  (Context.preserved_suits u).runFrom _ _ 0 0 [] h

theorem Valid.context_suits (hu : u.Valid) (hk : u.context fact tuple memory vars = .ok k) : k.Suits u := by
  refine ⟨?_, hu.context_shape hk⟩
  obtain ⟨slots, -, rfl⟩ := context_eq_ok.1 hk
  rfl

theorem run_layoutFault (hu : p.compile config r = .ok u) (hk : k.Suits u) {e : RunError}
    (he : (u.run k).result = .error e) : e.isLayoutFault = false := by
  obtain ⟨-, hvalid, ss, -, hprogram⟩ := compile_eq_ok hu
  rcases program_refused hprogram u.maxStackDepth k he with
    ⟨hframe, hfault⟩ | rfl | ⟨place, stack, k', op, hr, hop, hno⟩
  · exact RunError.not_layoutFault hframe hfault
  · rfl
  · exact ((Context.preserved_suits u).reaches hk hr).refused hvalid hop hno

theorem FailsWith.layoutFault (hu : p.compile config r = .ok u) {e : FoldError}
    (h : u.FailsWith fact tuple memory vars e) (hl : vars.length = u.layout.other) : e.isLayoutFault = false := by
  obtain ⟨-, hmiscount⟩ := h.isOrdinary hl
  cases h with
  | run hk h => exact run_layoutFault hu ((compile_eq_ok hu).2.1.context_suits hk) h
  | @context e h =>
    obtain ⟨unit, cause⟩ := e
    cases cause with
    | otherCount => cases hmiscount
    | _ => rfl

end CompiledUnit

namespace Accumulator

variable {a : Accumulator} {config : Config} {registry : Registry} {units : CompiledUnits} {g : Group}
  {tuple : List Fact} {fact : Fact} {memory : Memory} {e : FoldError} {calls : List Call}

theorem snapshot_suits (h : a.Made config registry units) {id : UInt64} {k : Context}
    (hs : (a.behind a.group calls).snapshot? id = some k) : k.Suits units.action := by
  have hreversible : a.isReversible = true := by
    have hkept := (behind_reachable (.new a) calls).sound.kept
    cases hr : a.isReversible with
    | true => rfl
    | false =>
      rw [hr, Option.isSome_eq_false_iff, Option.isNone_iff_eq_none] at hkept
      simp [Group.snapshot?, hkept] at hs
  obtain ⟨_, _, _, _, k₀, -, hk₀, rfl⟩ := ((behind_snapshot? h hreversible calls id k).1 hs).origin
  exact CompiledUnit.run_suits (h.valid.2.1.context_suits hk₀)

theorem Made.reset_layoutFault (h : a.Made config registry units) (he : (a.reset g tuple memory).1 = .error e) :
    e.isLayoutFault = false := by
  obtain ⟨-, hinit, -⟩ := units_steps h.made
  exact (reset_failed h.compiled he).layoutFault hinit h.nulls_length

theorem Made.accumulate_layoutFault (h : a.Made config registry units) (hg : g.Fits units)
    (he : (a.accumulate g tuple fact memory).1 = .error e) : e.isLayoutFault = false := by
  obtain ⟨-, -, haction, -⟩ := units_steps h.made
  exact (accumulate_failed h.compiled he).layoutFault haction hg.vars

theorem Made.answer_layoutFault (h : a.Made config registry units) (hg : g.Fits units)
    (he : a.answer g tuple memory = .error e) : e.isLayoutFault = false := by
  obtain ⟨-, -, -, -, hresult⟩ := units_steps h.made
  exact (answer_failed h.compiled he).layoutFault hresult (h.result_vars hg)

theorem Made.reverseFold_layoutFault (h : a.Made config registry units) (hg : g.Fits units)
    (hsuits : ∀ k, g.snapshot? fact.id = some k → k.Suits units.action)
    (he : (a.reverseFold g fact).1 = .error e) : e.isLayoutFault = false := by
  unfold reverseFold at he
  simp only [h.compiled] at he
  split at he
  · cases he
    rfl
  · next reverse hreverse =>
    obtain ⟨p, -, hcompile, hinputs, hlayout⟩ := (units_eq_ok h.made).2.2.2 reverse hreverse
    split at he
    · cases he
      rfl
    · next k hs =>
      obtain ⟨k', hset, hsuits', -⟩ := (hsuits k hs).setOthers hg.vars
      simp only [hset] at he
      split at he
      · next hrun =>
        cases he
        exact CompiledUnit.run_layoutFault hcompile (hsuits'.of_same hinputs hlayout) (congrArg Outcome.result hrun)
      · cases he

theorem Made.call_layoutFault (h : a.Made config registry units) (hg : g.Fits units)
    (hsuits : ∀ id k, g.snapshot? id = some k → k.Suits units.action) {c : Call}
    (he : (a.call g c).1 = .error e) : e.isLayoutFault = false := by
  cases c with
  | reset tuple memory => exact h.reset_layoutFault (map_eq_error.1 he)
  | accumulate tuple fact memory => exact h.accumulate_layoutFault hg (map_eq_error.1 he)
  | reverseFold fact => exact h.reverseFold_layoutFault hg (hsuits fact.id) (map_eq_error.1 he)
  | answer tuple memory => exact h.answer_layoutFault hg (map_eq_error.1 he)

theorem behind_fits_of_reset (h : a.Made config registry units) (before : List Call)
    (hset : (a.reset (a.behind a.group before) tuple memory).1 = .ok ()) (later : List Call) :
    (a.behind a.group (before ++ .reset tuple memory :: later)).Fits units := by
  have hbefore := behind_reachable (.new a) before
  have hfits : (a.reset (a.behind a.group before) tuple memory).2.Fits units :=
    h.reset_fits (Prod.ext hset rfl)
  rw [behind_append]
  exact behind_fits h (hbefore.reset tuple memory) hfits later

theorem Made.reverse_refersTo (h : a.Made config registry units) {reverse : CompiledUnit}
    (hreverse : units.reverse = some reverse) :
    reverse.layout = units.action.layout ∧ reverse.FromSource config registry ∧
      units.action.FromSource config registry ∧
      ∀ (i : Nat) name, reverse.plan.inputs[i]? = some name →
        ∃ slot : UInt16, slot.toNat = i ∧ (reverse.compiler registry).RefersTo name slot ∧
          (units.action.compiler registry).RefersTo name slot ∧
          ∀ k : Context, k.Suits units.action → k.slot? name = some i := by
  obtain ⟨-, -, haction, hunits⟩ := units_eq_ok h.made
  obtain ⟨p, -, hcompile, hinputs, hlayout⟩ := hunits reverse hreverse
  obtain ⟨-, hvalid, -⟩ := CompiledUnit.compile_eq_ok hcompile
  refine ⟨hlayout, CompiledUnit.fromSource hcompile, CompiledUnit.fromSource haction, fun i name hi => ?_⟩
  have hi' : units.action.plan.inputs[i]? = some name := by
    rwa [← h.valid.2.1.names, ← hinputs, hvalid.names]
  obtain ⟨slot, hslot, hrefers⟩ := hvalid.refersTo registry hi
  obtain ⟨slot', hslot', hrefers'⟩ := h.valid.2.1.refersTo registry hi'
  obtain rfl : slot = slot' := UInt16.toNat_inj.1 (hslot.trans hslot'.symm)
  exact ⟨slot, hslot, hrefers, hrefers', fun k hk => hk.slot_of_input h.valid.2.1 hi'⟩

/-- Once the variables of a group are set, they are always as many as the accumulator has, and every snapshot has
a value in each slot of the layout of the action. The reversing script has its inputs in the same slots as the
folding one, which are those of the snapshot, and no call comes to an error that a layout could be blamed for. -/
theorem replay_layout_safe (h : a.Made config registry units) (before : List Call) (tuple : List Fact)
    (memory : Memory) (hset : (a.reset (a.behind a.group before) tuple memory).1 = .ok ())
    (later : List Call) :
    (a.behind a.group (before ++ .reset tuple memory :: later)).vars.length = a.init.others.length ∧
      (∀ kept id k, (a.behind a.group (before ++ .reset tuple memory :: later)).snapshots = some kept →
        (id, k) ∈ kept → k.layout = units.action.layout ∧ k.slots.length = units.action.layout.size ∧
          ∀ reverse, units.reverse = some reverse → reverse.layout = k.layout ∧
            reverse.FromSource config registry ∧ units.action.FromSource config registry ∧
            ∀ (i : Nat) name, reverse.plan.inputs[i]? = some name → k.slot? name = some i ∧
              ∃ slot : UInt16, slot.toNat = i ∧ (reverse.compiler registry).RefersTo name slot ∧
                (units.action.compiler registry).RefersTo name slot) ∧
      ∀ c e, (a.call (a.behind a.group (before ++ .reset tuple memory :: later)) c).1 = .error e →
        e.isLayoutFault = false := by
  have hfits := behind_fits_of_reset h before hset later
  have hsound := (behind_reachable (.new a) (before ++ .reset tuple memory :: later)).sound
  refine ⟨hfits.vars.trans h.layout_other.2.1, fun kept id k hkept hk => ?_, fun c e he => ?_⟩
  · have hs : (a.behind a.group (before ++ .reset tuple memory :: later)).snapshot? id = some k := by
      rw [Group.snapshot?, hkept]
      exact Entries.get?_eq_some_of_mem (hsound.once kept hkept) hk
    have hsuits := snapshot_suits h hs
    obtain ⟨hlayout, hslots⟩ := Prod.mk.inj hsuits.shape
    refine ⟨hlayout, hslots, fun reverse hreverse => ?_⟩
    obtain ⟨hsame, hsource, hsource', hnames⟩ := h.reverse_refersTo hreverse
    refine ⟨hsame.trans hlayout.symm, hsource, hsource', fun i name hi => ?_⟩
    obtain ⟨slot, hslot, hrefers, hrefers', hfound⟩ := hnames i name hi
    exact ⟨hfound k hsuits, slot, hslot, hrefers, hrefers'⟩
  · exact h.call_layoutFault hfits (fun id k hs => snapshot_suits h hs) he

theorem replay_layout_safe_sum :
    ∃ k, (2, k) ∈ (sum.behind sum.group (.reset [] {} :: [.accumulate [] ⟨2, .int 7⟩ {}])).snapshots.getD [] ∧
      k.slots.length = 3 ∧ k.slot? "total" = some 2 := by
  have hmade : sum.Made {} sumRegistry sumUnits := ⟨rfl, sum_units⟩
  obtain ⟨-, hkept, -⟩ := replay_layout_safe hmade [] [] {} rfl [.accumulate [] ⟨2, .int 7⟩ {}]
  obtain ⟨-, hslots, hreverse⟩ := hkept _ 2 _ rfl (List.mem_singleton.2 rfl)
  exact ⟨_, List.mem_singleton.2 rfl, hslots, ((hreverse _ rfl).2.2.2 2 "total" rfl).1⟩

end Accumulator

end FactFold
