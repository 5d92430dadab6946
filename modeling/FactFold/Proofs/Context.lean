import FactFold.Context
import FactFold.Proofs.Script.Writes
import FactFold.Proofs.Unit

namespace FactFold

open Script (Frame Preserved)

def namedValue? (names : List String) (vars : List Value) (name : String) : Option Value :=
  (names.findIdx? (· == name)).bind (vars[·]?)

section

variable {names : List String} {vars : List Value} {name other : String} {i : Nat}

theorem findIdx?_of_mem (h : name ∈ names) : ∃ i < names.length, names.findIdx? (· == name) = some i := by
  cases hi : names.findIdx? (· == name) with
  | none => simpa using List.findIdx?_eq_none_iff.1 hi name h
  | some i => exact ⟨i, (List.findIdx?_eq_some_iff_getElem.1 hi).1, rfl⟩

theorem findIdx?_of_getElem? (hn : names.Nodup) (hi : names[i]? = some name) :
    names.findIdx? (· == name) = some i := by
  obtain ⟨hlt, rfl⟩ := List.getElem?_eq_some_iff.1 hi
  rw [List.findIdx?_eq_some_iff_getElem]
  refine ⟨hlt, beq_self_eq_true _, fun j hj => ?_⟩
  have hne := List.pairwise_iff_getElem.1 hn j i (by omega) hlt hj
  simpa using hne

theorem namedValue?_set (hi : names.findIdx? (· == name) = some i) (hlt : i < vars.length) (v : Value) :
    namedValue? names (vars.set i v) name = some v := by
  simp [namedValue?, hi, hlt]

theorem namedValue?_set_of_ne (hi : names.findIdx? (· == name) = some i) (h : other ≠ name) (v : Value) :
    namedValue? names (vars.set i v) other = namedValue? names vars other := by
  unfold namedValue?
  cases hj : names.findIdx? (· == other) with
  | none => rfl
  | some j =>
    obtain ⟨_, hname, -⟩ := List.findIdx?_eq_some_iff_getElem.1 hi
    obtain ⟨_, hother, -⟩ := List.findIdx?_eq_some_iff_getElem.1 hj
    have hne : i ≠ j := by
      rintro rfl
      exact h ((eq_of_beq hother).symm.trans (eq_of_beq hname))
    simp [hne]

theorem vars_ext {vars' : List Value} (hn : names.Nodup) (hl : vars.length = names.length)
    (hl' : vars'.length = names.length)
    (h : ∀ name ∈ names, namedValue? names vars name = namedValue? names vars' name) :
    vars = vars' := by
  apply List.ext_getElem?
  intro i
  by_cases hi : i < names.length
  · have hfirst := findIdx?_of_getElem? hn (List.getElem?_eq_getElem hi)
    have := h names[i] (List.getElem_mem hi)
    simpa [namedValue?, hfirst] using this
  · rw [List.getElem?_eq_none (by omega), List.getElem?_eq_none (by omega)]

end

structure Front where
  values : List Value
  scope : ScopeChain

namespace Context

structure Splits (k : Context) (u : CompiledUnit) (front : Front) (vars : List Value) : Prop where
  inputs : k.inputs = u.inputs
  layout : k.layout = u.layout
  slots : k.slots = front.values ++ vars
  scope : k.scope = front.scope
  front : front.values.length = u.layout.start .other
  vars : vars.length = u.layout.other

namespace Splits

variable {k k' : Context} {u v : CompiledUnit} {front : Front} {vars vars' : List Value} {slot : UInt16}
  {i : Nat}

theorem of_sameInputs (h : k.Splits u front vars) (hi : v.inputs = u.inputs) (hl : v.layout = u.layout) :
    k.Splits v front vars :=
  ⟨by rw [h.inputs, hi], by rw [h.layout, hl], h.slots, h.scope, by rw [h.front, hl], by rw [h.vars, hl]⟩

theorem others (h : k.Splits u front vars) : k.others = vars := by
  rw [Context.others, segment, h.layout, h.slots, ← h.front, List.drop_left, SlotLayout.length, ← h.vars,
    List.take_length]

theorem setOthers {values : List Value} (h : k.Splits u front vars) (hk : k.setOthers values = .ok k') :
    k'.Splits u front values := by
  unfold Context.setOthers at hk
  rw [h.layout] at hk
  split at hk
  · next hlength =>
    rw [← Except.ok.inj hk]
    refine ⟨h.inputs, rfl, ?_, h.scope, h.front, hlength⟩
    have hlen : (front.values ++ vars).length = u.layout.start .other + values.length := by
      rw [List.length_append, h.front, h.vars, hlength]
    have hbehind : (front.values ++ vars).drop (u.layout.start .other + values.length) = [] :=
      List.drop_eq_nil_of_le (Nat.le_of_eq hlen)
    dsimp only
    rw [h.slots, hbehind, ← h.front, List.take_left, List.append_nil]
  · cases hk

theorem loadSlot_front (h : k.Splits u front vars) (h' : k'.Splits u front vars')
    (hs : slot.toNat < u.layout.start .other) : Frame.loadSlot k slot = Frame.loadSlot k' slot := by
  have hlt : slot.toNat < front.values.length := h.front ▸ hs
  change k.readSlot slot = k'.readSlot slot
  rw [readSlot, readSlot, h.slots, h'.slots, List.getElem?_append_left hlt, List.getElem?_append_left hlt]

theorem loadName (h : k.Splits u front vars) (h' : k'.Splits u front vars') {name : String}
    (hn : u.inputs.position? name = none) : Frame.loadName k name = Frame.loadName k' name := by
  change k.resolve name = k'.resolve name
  simp only [resolve, slot?, h.inputs, h'.inputs, h.scope, h'.scope, hn, Option.bind_none]

theorem loadSlot_variable {w : Value} (h : k.Splits u front vars) (hs : slot.toNat = u.layout.start .other + i)
    (hw : vars[i]? = some w) : Frame.loadSlot k slot = .ok w := by
  change k.readSlot slot = .ok w
  rw [readSlot, h.slots, hs, ← h.front, List.getElem?_append_right (Nat.le_add_right ..),
    Nat.add_sub_cancel_left, hw]

theorem storeSlot (h : k.Splits u front vars) (hs : slot.toNat = u.layout.start .other + i)
    (hi : i < vars.length) (w : Value) :
    ∃ k', Frame.storeSlot k slot w = (.ok (), k') ∧ k'.Splits u front (vars.set i w) := by
  have hlt : slot.toNat < k.slots.length := by
    rw [h.slots, List.length_append, h.front, hs]
    omega
  have hvars : (vars.set i w).length = u.layout.other := by rw [List.length_set, h.vars]
  refine ⟨{ k with slots := k.slots.set slot.toNat w }, ?_, h.inputs, h.layout, ?_, h.scope, h.front, hvars⟩
  · change k.after (k.writeSlot slot.toNat w) = _
    rw [writeSlot, if_pos hlt]
    rfl
  · dsimp only
    rw [h.slots, hs, ← h.front, List.set_append_right _ _ (Nat.le_add_right ..), Nat.add_sub_cancel_left]

end Splits

end Context

namespace CompiledUnit

variable {u : CompiledUnit} {fact : Option Fact} {tuple : List Fact} {memory : Memory} {vars slots : List Value}
  {k : Context}

theorem factValues_eq_ok {values : List Value} :
    u.factValues fact = .ok values ↔
      if u.layout.hasFact then ∃ source, fact = some source ∧ values = [source.value] else values = [] := by
  unfold factValues
  split
  · cases fact <;> simp [eq_comm]
  · simp [eq_comm]

theorem slotValues_eq_ok :
    u.slotValues fact tuple memory vars = .ok slots ↔
      ∃ folded previous locals, u.factValues fact = .ok folded ∧
        u.plan.previous.mapM (·.readTuple tuple) = .ok previous ∧
        u.plan.locals.mapM (·.readFact fact) = .ok locals ∧ vars.length = u.layout.other ∧
        slots = folded ++ u.plan.engine.map memory.handle ++ u.plan.globals.map memory.global ++ previous ++
          locals ++ vars := by
  constructor
  · intro hs
    obtain ⟨folded, hfolded, hs⟩ := bind_eq_ok.1 hs
    obtain ⟨previous, hprevious, hs⟩ := bind_eq_ok.1 hs
    obtain ⟨locals, hlocals, hs⟩ := bind_eq_ok.1 hs
    split at hs
    · next hvars => exact ⟨folded, previous, locals, hfolded, hprevious, hlocals, hvars, (Except.ok.inj hs).symm⟩
    · cases hs
  · rintro ⟨folded, previous, locals, hfolded, hprevious, hlocals, hvars, rfl⟩
    simp only [slotValues, hfolded, hprevious, hlocals, ok_bind, hvars, if_true]
    rfl

theorem context_eq_ok :
    u.context fact tuple memory vars = .ok k ↔
      ∃ slots, u.slotValues fact tuple memory vars = .ok slots ∧
        k = ⟨u.name, u.inputs, slots, u.layout, { package := memory.package }⟩ := by
  unfold context
  cases u.slotValues fact tuple memory vars <;> simp [eq_comm]

theorem context_eq_error {e : ContextError} :
    u.context fact tuple memory vars = .error e ↔
      u.slotValues fact tuple memory vars = .error e.cause ∧ e.unit = u.name := by
  obtain ⟨unit, cause⟩ := e
  unfold context
  cases u.slotValues fact tuple memory vars <;> simp [eq_comm, and_comm]

theorem Valid.factValues_length (h : u.Valid) {values : List Value} (hf : u.factValues fact = .ok values) :
    values.length = u.layout.fact := by
  obtain ⟨-, hone, -⟩ := Plan.layout_eq_ok h.layout
  rw [factValues_eq_ok] at hf
  split at hf
  · next hfact =>
    obtain ⟨source, -, rfl⟩ := hf
    have hfact : u.layout.fact = 1 := by simpa [SlotLayout.hasFact] using hfact
    rw [hfact, List.length_singleton]
  · next hfact =>
    have hne : u.layout.fact ≠ 1 := by simpa [SlotLayout.hasFact] using hfact
    rw [hf, List.length_nil]
    omega

theorem Valid.slotValues (h : u.Valid) (hs : u.slotValues fact tuple memory vars = .ok slots) :
    ∃ front, front.length = u.layout.start .other ∧ slots = front ++ vars ∧ vars.length = u.layout.other ∧
      ∀ vars', vars'.length = u.layout.other →
        u.slotValues fact tuple memory vars' = .ok (front ++ vars') := by
  obtain ⟨-, -, -, -, he, hg, hp, hl, -⟩ := Plan.layout_eq_ok h.layout
  obtain ⟨folded, previous, locals, hfolded, hprevious, hlocals, hvars, rfl⟩ := slotValues_eq_ok.1 hs
  refine ⟨_, ?_, rfl, hvars, fun vars' hvars' => ?_⟩
  · simp only [List.length_append, h.factValues_length hfolded, List.length_map,
      ← (mapM_eq_ok.1 hprevious).length_eq, ← (mapM_eq_ok.1 hlocals).length_eq, SlotLayout.start, he, hg, hp, hl]
  · exact slotValues_eq_ok.2 ⟨folded, previous, locals, hfolded, hprevious, hlocals, hvars', rfl⟩

theorem Valid.context (h : u.Valid) (hk : u.context fact tuple memory vars = .ok k) :
    ∃ front, k.Splits u front vars ∧ ∀ vars', vars'.length = u.layout.other →
      ∃ k', u.context fact tuple memory vars' = .ok k' ∧ k'.Splits u front vars' := by
  obtain ⟨slots, hs, rfl⟩ := context_eq_ok.1 hk
  obtain ⟨front, hfront, hslots, hvars, hother⟩ := h.slotValues hs
  refine ⟨⟨front, { package := memory.package }⟩, ⟨rfl, rfl, hslots, rfl, hfront, hvars⟩, fun vars' hvars' => ?_⟩
  exact ⟨_, context_eq_ok.2 ⟨_, hother vars' hvars', rfl⟩, rfl, rfl, rfl, rfl, hfront, hvars'⟩

end CompiledUnit

namespace Context

def shape (k : Context) : SlotLayout × Nat :=
  (k.layout, k.slots.length)

theorem shape_after {k : Context} {write : Except RunError Context}
    (h : ∀ k', write = .ok k' → k'.shape = k.shape) : (k.after write).2.shape = k.shape := by
  cases write with
  | error e => rfl
  | ok k' => exact h k' rfl

theorem shape_writeSlot {k k' : Context} {slot : Nat} {v : Value} (h : k.writeSlot slot v = .ok k') :
    k'.shape = k.shape := by
  unfold writeSlot at h
  split at h
  · rw [← Except.ok.inj h]
    simp [shape]
  · cases h

theorem shape_writeName {k k' : Context} {name : String} {v : Value} (h : k.writeName name v = .ok k') :
    k'.shape = k.shape := by
  unfold writeName at h
  split at h
  · exact shape_writeSlot h
  · split at h <;>
    · rw [← Except.ok.inj h]
      rfl

theorem shape_declare {k k' : Context} {name : String} {v : Value} (h : k.declare name v = .ok k') :
    k'.shape = k.shape := by
  unfold declare at h
  split at h
  · split at h
    · cases h
    · exact shape_writeSlot h
  · rw [← Except.ok.inj h]
    rfl

theorem preserved_shape (shape : SlotLayout × Nat) : Preserved fun k : Context => k.shape = shape where
  storeSlot _ _ _ h := h ▸ shape_after fun _ => shape_writeSlot
  storeName _ _ _ h := h ▸ shape_after fun _ => shape_writeName
  declare _ _ _ _ h := h ▸ shape_after fun _ => shape_declare

end Context

theorem CompiledUnit.run_shape (u : CompiledUnit) (k : Context) : (u.run k).frame.shape = k.shape :=
  (Context.preserved_shape k.shape).runFrom _ _ 0 0 [] rfl

theorem CompiledUnit.run_others_length {u : CompiledUnit} {k : Context} {front : Front} {vars : List Value}
    (h : k.Splits u front vars) : (u.run k).frame.others.length = u.layout.other := by
  obtain ⟨hlayout, hslots⟩ := Prod.mk.inj (u.run_shape k)
  rw [Context.others, Context.segment, hlayout, h.layout, List.length_take, List.length_drop, hslots, h.slots,
    List.length_append, h.front, h.vars, SlotLayout.length]
  omega

end FactFold
