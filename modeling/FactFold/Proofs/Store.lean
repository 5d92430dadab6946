import FactFold.Proofs.Accumulator.Replays
import FactFold.Proofs.Assignment

namespace FactFold

open Script (Frame)

def latest? (entries : Entries String Value) (name : String) : Option Value :=
  Entries.get? entries.reverse name

section

variable {entries : Entries String Value} {name : String} {v : Value}

theorem latest?_append (entries later : Entries String Value) (name : String) :
    latest? (entries ++ later) name = (latest? later name <|> latest? entries name) := by
  unfold latest? Entries.get?
  rw [List.reverse_append, List.lookup_append, Option.or_eq_orElse]
  rfl

theorem latest?_singleton (name other : String) (v : Value) :
    latest? [(name, v)] other = if other = name then some v else none :=
  Entries.get?_cons name other v []

theorem latest?_of_notMem (h : name ∉ entries.map Prod.fst) : latest? entries name = none := by
  rw [latest?, Entries.get?_eq_none_iff]
  simpa using h

theorem latest?_of_mem (hn : (entries.map Prod.fst).Nodup) (h : (name, v) ∈ entries) :
    latest? entries name = some v := by
  have hkeys : (entries.reverse.map Prod.fst).Nodup := by
    rw [List.map_reverse]
    exact List.nodup_reverse.2 hn
  have hmem : (name, v) ∈ entries.reverse := List.mem_reverse.2 h
  exact Entries.get?_eq_some_of_mem hkeys hmem

end

namespace Context

inductive Write where
  | slot (i : UInt16) (v : Value)
  | name (n : String) (v : Value)
  | declare (n : String) (v : Value) (type : Option ValueType)
  | others (values : List Value)

def write (k : Context) : Write → Except (RunError ⊕ ContextError) Unit × Context
  | .slot i v => (Frame.storeSlot k i v).map (Except.mapError .inl) id
  | .name n v => (Frame.storeName k n v).map (Except.mapError .inl) id
  | .declare n v type => (Frame.declare k n v type).map (Except.mapError .inl) id
  | .others values =>
    match k.setOthers values with
    | .ok k' => (.ok (), k')
    | .error e => (.error (.inr e), k)

def behind (k : Context) (writes : List Write) : Context :=
  writes.foldl (fun k w => (k.write w).2) k

namespace Write

inductive Refused (u : CompiledUnit) : Write → RunError ⊕ ContextError → Prop
  | slot {i : UInt16} {v : Value} (h : u.plan.inputs.length ≤ i.toNat) :
      Refused u (.slot i v) (.inl (.invalidSlot i))
  | declare {n : String} {v : Value} {type : Option ValueType} {input : ValueType}
      (h : u.inputs.get? n = some input) (hc : input.isConstrained = true) :
      Refused u (.declare n v type) (.inl (.redeclared n))
  | others {values : List Value} (h : values.length ≠ u.plan.others.length) :
      Refused u (.others values) (.inr ⟨u.name, .otherCount u.plan.others.length values.length⟩)

def entries (u : CompiledUnit) : Write → Entries String Value
  | .slot i v => u.plan.inputs[i.toNat]?.toList.map (·, v)
  | .name n v => [(n, v)]
  | .declare n v _ => if (u.inputs.get? n).any ValueType.isConstrained then [] else [(n, v)]
  | .others values => if values.length = u.plan.others.length then u.plan.others.zip values else []

end Write

section

variable {k k' : Context} {u : CompiledUnit} {name : String} {i : Nat} {v : Value}

theorem Suits.input_lt (hk : k.Suits u) (hu : u.Valid) : i < k.slots.length ↔ i < u.plan.inputs.length := by
  rw [hk.slots_length, hu.inputs_length]

theorem Suits.resolve_slot (hk : k.Suits u) (hu : u.Valid) (hi : u.plan.inputs[i]? = some name)
    (hv : k.slots[i]? = some v) : k.resolve name = .ok v := by
  rw [resolve, hk.slot_of_input hu hi, Option.bind_some, hv]
  rfl

theorem Suits.resolve_scope (hk : k.Suits u) (hu : u.Valid) (hn : name ∉ u.plan.inputs) :
    k.resolve name = (k.scope.resolve? name).elim (.error (.unresolved name)) .ok := by
  rw [resolve, hk.slot_of_notMem hu hn, Option.bind_none]
  cases k.scope.resolve? name <;> rfl

theorem Suits.resolve_input (hk : k.Suits u) (hu : u.Valid) (hi : u.plan.inputs[i]? = some name) :
    ∃ v, k.slots[i]? = some v ∧ k.resolve name = .ok v := by
  have hlt : i < k.slots.length := (hk.input_lt hu).2 (List.getElem?_eq_some_iff.1 hi).1
  have hv : k.slots[i]? = some k.slots[i] := List.getElem?_eq_getElem hlt
  exact ⟨_, hv, hk.resolve_slot hu hi hv⟩

theorem Suits.resolve_congr (hk : k.Suits u) (hk' : k'.Suits u) (hu : u.Valid)
    (hslots : ∀ i : Nat, u.plan.inputs[i]? = some name → k'.slots[i]? = k.slots[i]?)
    (hscope : name ∉ u.plan.inputs → k'.scope.resolve? name = k.scope.resolve? name) :
    k'.resolve name = k.resolve name := by
  by_cases hn : name ∈ u.plan.inputs
  · obtain ⟨i, hi⟩ := List.getElem?_of_mem hn
    obtain ⟨v, hv, hresolve⟩ := hk.resolve_input hu hi
    rw [hresolve, hk'.resolve_slot hu hi ((hslots i hi).trans hv)]
  · rw [hk.resolve_scope hu hn, hk'.resolve_scope hu hn, hscope hn]

end

structure Serves (k : Context) (u : CompiledUnit) (package : Option Package) : Prop where
  unit : k.unit = u.name
  suits : k.Suits u
  package : k.scope.package = package

/-- The context behind the entries is still one of the unit. A name has the value that was written last, and the
value it had if none was. -/
structure Wrote (u : CompiledUnit) (package : Option Package) (k : Context) (entries : Entries String Value)
    (k' : Context) : Prop where
  serves : k'.Serves u package
  resolved : ∀ name, k'.resolve name = (latest? entries name).elim (k.resolve name) .ok

section

variable {k k' : Context} {u : CompiledUnit} {package : Option Package} {name : String} {i : Nat} {v : Value}

theorem Wrote.refl (hk : k.Serves u package) : Wrote u package k [] k :=
  ⟨hk, fun _ => rfl⟩

theorem Wrote.append {k'' : Context} {entries later : Entries String Value} (h : Wrote u package k entries k')
    (h' : Wrote u package k' later k'') : Wrote u package k (entries ++ later) k'' := by
  refine ⟨h'.serves, fun name => ?_⟩
  rw [h'.resolved, h.resolved, latest?_append]
  cases latest? later name <;> rfl

theorem Serves.wrote_slot (hk : k.Serves u package) (hu : u.Valid) (hi : u.plan.inputs[i]? = some name) (v : Value) :
    Wrote u package k [(name, v)] { k with slots := k.slots.set i v } := by
  have hlt : i < k.slots.length := (hk.suits.input_lt hu).2 (List.getElem?_eq_some_iff.1 hi).1
  have hsuits : Suits { k with slots := k.slots.set i v } u := by
    refine ⟨hk.suits.inputs, ?_⟩
    rw [← hk.suits.shape, shape, shape, List.length_set]
  refine ⟨⟨hk.unit, hsuits, hk.package⟩, fun other => ?_⟩
  rw [latest?_singleton]
  split
  · next ho =>
    subst ho
    exact hsuits.resolve_slot hu hi (List.getElem?_set_self hlt)
  · next ho =>
    refine hk.suits.resolve_congr hsuits hu (fun j hj => List.getElem?_set_ne ?_) fun _ => rfl
    rintro rfl
    exact ho (Option.some.inj (hj.symm.trans hi))

theorem Serves.wrote_scope (hk : k.Serves u package) (hu : u.Valid) (hn : name ∉ u.plan.inputs) {scope : ScopeChain}
    (hpackage : scope.package = k.scope.package)
    (hscope : ∀ other, scope.resolve? other = if other = name then some v else k.scope.resolve? other) :
    Wrote u package k [(name, v)] { k with scope } := by
  have hsuits : Suits { k with scope } u := ⟨hk.suits.inputs, hk.suits.shape⟩
  refine ⟨⟨hk.unit, hsuits, hpackage.trans hk.package⟩, fun other => ?_⟩
  rw [latest?_singleton]
  split
  · next ho =>
    subst ho
    rw [hsuits.resolve_scope hu hn, hscope, if_pos rfl]
    rfl
  · next ho =>
    refine hk.suits.resolve_congr hsuits hu (fun _ _ => rfl) fun _ => ?_
    rw [hscope, if_neg ho]

theorem Serves.wrote_define (hk : k.Serves u package) (hu : u.Valid) (hn : name ∉ u.plan.inputs) (v : Value) :
    Wrote u package k [(name, v)] { k with scope := k.scope.define name v } :=
  hk.wrote_scope hu hn rfl fun other => k.scope.resolve?_define name other v

theorem Suits.splits (hk : k.Suits u) : ∃ front vars, k.Splits u front vars := by
  have hlength : k.slots.length = u.layout.start .other + u.layout.other := hk.slots_length
  refine ⟨⟨k.slots.take (u.layout.start .other), k.scope⟩, k.slots.drop (u.layout.start .other), hk.inputs,
    (Prod.mk.inj hk.shape).1, (List.take_append_drop ..).symm, rfl, ?_, ?_⟩
  · rw [List.length_take]
    omega
  · rw [List.length_drop]
    omega

theorem unit_setOthers {values : List Value} (h : k.setOthers values = .ok k') : k'.unit = k.unit := by
  unfold setOthers at h
  split at h
  · rw [← Except.ok.inj h]
  · cases h

theorem Serves.wrote_others (hk : k.Serves u package) (hu : u.Valid) {values : List Value}
    (hl : values.length = u.plan.others.length) :
    ∃ k', k.setOthers values = .ok k' ∧ Wrote u package k (u.plan.others.zip values) k' := by
  obtain ⟨k', hset, hsuits, -⟩ := hk.suits.setOthers (hl.trans hu.layout_other.symm)
  obtain ⟨front, vars, hsplits⟩ := hk.suits.splits
  have hsplits' := hsplits.setOthers hset
  have hnames : (u.plan.others.zip values).map Prod.fst = u.plan.others := List.map_fst_zip (Nat.le_of_eq hl.symm)
  refine ⟨k', hset, ⟨(unit_setOthers hset).trans hk.unit, hsuits, ?_⟩, fun name => ?_⟩
  · rw [hsplits'.scope, ← hsplits.scope, hk.package]
  by_cases hn : name ∈ u.plan.others
  · obtain ⟨j, hj⟩ := List.getElem?_of_mem hn
    have hlt : j < values.length := hl ▸ (List.getElem?_eq_some_iff.1 hj).1
    have hvalue : values[j]? = some values[j] := List.getElem?_eq_getElem hlt
    have hzip : (name, values[j]) ∈ u.plan.others.zip values :=
      List.mem_of_getElem? (List.getElem?_zip_eq_some.2 ⟨hj, hvalue⟩)
    rw [latest?_of_mem (by rw [hnames]; exact hu.others_nodup) hzip]
    refine hsuits.resolve_slot hu (hu.input_of_other hj) ?_
    rw [hsplits'.slots, ← hsplits'.front, List.getElem?_append_right (Nat.le_add_right ..), Nat.add_sub_cancel_left,
      hvalue]
  · rw [latest?_of_notMem (by rwa [hnames])]
    refine hk.suits.resolve_congr hsuits hu (fun i hi => ?_) fun _ => ?_
    · have hlt : i < front.values.length := hsplits.front ▸ hu.input_lt_of_notMem hi hn
      rw [hsplits'.slots, hsplits.slots, List.getElem?_append_left hlt, List.getElem?_append_left hlt]
    · rw [hsplits'.scope, hsplits.scope]

theorem Suits.writeSlot_input (hk : k.Suits u) (hu : u.Valid) (hi : u.plan.inputs[i]? = some name) (v : Value) :
    k.writeSlot i v = .ok { k with slots := k.slots.set i v } :=
  if_pos ((hk.input_lt hu).2 (List.getElem?_eq_some_iff.1 hi).1)

def Settled (k : Context) (u : CompiledUnit) (package : Option Package) (w : Write) : Prop :=
  (∃ e, w.Refused u e ∧ w.entries u = [] ∧ k.write w = (.error e, k)) ∨
    (∀ e, ¬w.Refused u e) ∧ ∃ k', k.write w = (.ok (), k') ∧ Wrote u package k (w.entries u) k'

theorem Serves.settled_slot (hk : k.Serves u package) (hu : u.Valid) (i : UInt16) (v : Value) :
    k.Settled u package (.slot i v) := by
  have hcall : k.write (.slot i v) = (k.after (k.writeSlot i.toNat v)).map (Except.mapError .inl) id := rfl
  cases hi : u.plan.inputs[i.toNat]? with
  | none =>
    have hle : u.plan.inputs.length ≤ i.toNat := List.getElem?_eq_none_iff.1 hi
    have hge : ¬i.toNat < k.slots.length := fun hlt => absurd ((hk.suits.input_lt hu).1 hlt) (Nat.not_lt.2 hle)
    refine .inl ⟨_, .slot hle, by rw [Write.entries, hi]; rfl, ?_⟩
    rw [hcall, writeSlot, if_neg hge, if_pos (UInt16.toNat_lt_size i), UInt16.ofNat_toNat]
    rfl
  | some name =>
    have hwrote := hk.wrote_slot hu hi v
    refine .inr ⟨fun e he => ?_, _, ?_, by rw [Write.entries, hi]; exact hwrote⟩
    · cases he with
      | slot hle =>
        rw [List.getElem?_eq_none hle] at hi
        cases hi
    · rw [hcall, hk.suits.writeSlot_input hu hi v]
      rfl

theorem Serves.settled_name (hk : k.Serves u package) (hu : u.Valid) (name : String) (v : Value) :
    k.Settled u package (.name name v) := by
  have hcall : k.write (.name name v) = (k.after (k.writeName name v)).map (Except.mapError .inl) id := rfl
  obtain ⟨k', hwrite, hwrote⟩ : ∃ k', k.writeName name v = .ok k' ∧ Wrote u package k [(name, v)] k' := by
    unfold writeName
    by_cases hn : name ∈ u.plan.inputs
    · obtain ⟨i, hi⟩ := List.getElem?_of_mem hn
      rw [hk.suits.slot_of_input hu hi]
      exact ⟨_, hk.suits.writeSlot_input hu hi v, hk.wrote_slot hu hi v⟩
    · rw [hk.suits.slot_of_notMem hu hn]
      -- The first assignment to a name that only the package has makes a variable of it.
      rcases k.scope.assign_cases name v with ⟨_, _, _, scope, -, hassign, -, hpackage⟩ | ⟨-, hassign⟩
      · rw [hassign]
        exact ⟨_, rfl, hk.wrote_scope hu hn hpackage (ScopeChain.resolve?_assign hassign)⟩
      · rw [hassign]
        exact ⟨_, rfl, hk.wrote_define hu hn v⟩
  refine .inr ⟨nofun, k', ?_, hwrote⟩
  rw [hcall, hwrite]
  rfl

theorem Serves.settled_declare (hk : k.Serves u package) (hu : u.Valid) (name : String) (v : Value)
    (type : Option ValueType) : k.Settled u package (.declare name v type) := by
  have hcall : k.write (.declare name v type) = (k.after (k.declare name v)).map (Except.mapError .inl) id := rfl
  cases hinput : u.inputs.get? name with
  | none =>
    have hn : name ∉ u.plan.inputs := by
      rwa [← hu.names, ← Entries.get?_eq_none_iff]
    have hwrote := hk.wrote_define hu hn v
    refine .inr ⟨fun e he => ?_, _, ?_, by rw [Write.entries, hinput]; exact hwrote⟩
    · cases he with
      | declare h _ =>
        rw [hinput] at h
        cases h
    · rw [hcall, declare, hk.suits.slot_of_notMem hu hn]
      rfl
  | some input =>
    have hn : name ∈ u.plan.inputs := by
      by_contra hn
      rw [← hu.names, ← Entries.get?_eq_none_iff, hinput] at hn
      cases hn
    obtain ⟨i, hi⟩ := List.getElem?_of_mem hn
    have hdeclare : k.declare name v =
        if input.isConstrained then .error (.redeclared name) else k.writeSlot i v := by
      rw [declare, hk.suits.slot_of_input hu hi, hk.suits.inputs, hinput]
    rw [hdeclare] at hcall
    cases hc : input.isConstrained with
    | true =>
      refine .inl ⟨_, .declare hinput hc, by rw [Write.entries, hinput, Option.any_some, hc]; rfl, ?_⟩
      rw [hcall, hc]
      rfl
    | false =>
      have hwrote := hk.wrote_slot hu hi v
      refine .inr ⟨fun e he => ?_, _, ?_, by rw [Write.entries, hinput, Option.any_some, hc]; exact hwrote⟩
      · cases he with
        | declare h hc' =>
          rw [hinput] at h
          cases h
          rw [hc] at hc'
          cases hc'
      · rw [hcall, hc, hk.suits.writeSlot_input hu hi v]
        rfl

theorem Serves.settled_others (hk : k.Serves u package) (hu : u.Valid) (values : List Value) :
    k.Settled u package (.others values) := by
  by_cases hl : values.length = u.plan.others.length
  · obtain ⟨k', hset, hwrote⟩ := hk.wrote_others hu hl
    refine .inr ⟨fun e he => ?_, k', by rw [write, hset], by rwa [Write.entries, if_pos hl]⟩
    cases he with
    | others hne => exact hne hl
  · have hlayout : k.layout = u.layout := (Prod.mk.inj hk.suits.shape).1
    refine .inl ⟨_, .others hl, if_neg hl, ?_⟩
    rw [write, setOthers, hlayout, hu.layout_other, if_neg hl, hk.unit]

theorem Serves.settled (hk : k.Serves u package) (hu : u.Valid) (w : Write) : k.Settled u package w := by
  cases w with
  | slot i v => exact hk.settled_slot hu i v
  | name n v => exact hk.settled_name hu n v
  | declare n v type => exact hk.settled_declare hu n v type
  | others values => exact hk.settled_others hu values

theorem Settled.wrote {w : Write} (h : k.Settled u package w) (hk : k.Serves u package) :
    Wrote u package k (w.entries u) (k.write w).2 := by
  rcases h with ⟨e, -, hnone, hwrite⟩ | ⟨-, k', hwrite, hwrote⟩
  · rw [hwrite, hnone]
    exact .refl hk
  · rwa [hwrite]

theorem Write.Refused.eq {w : Write} {e e' : RunError ⊕ ContextError} (h : w.Refused u e) (h' : w.Refused u e') :
    e = e' := by
  cases h <;> cases h' <;> rfl

theorem Settled.error_iff {w : Write} (h : k.Settled u package w) (e : RunError ⊕ ContextError) :
    (k.write w).1 = .error e ↔ w.Refused u e := by
  rcases h with ⟨e', hrefused, -, hwrite⟩ | ⟨hnot, k', hwrite, -⟩
  · rw [hwrite, Except.error.injEq]
    exact ⟨fun he => he ▸ hrefused, fun he => hrefused.eq he⟩
  · rw [hwrite]
    exact iff_of_false nofun (hnot e)

theorem Settled.unchanged {w : Write} {e : RunError ⊕ ContextError} (h : k.Settled u package w)
    (he : (k.write w).1 = .error e) : (k.write w).2 = k := by
  rcases h with ⟨_, -, -, hwrite⟩ | ⟨-, k', hwrite, -⟩
  · rw [hwrite]
  · rw [hwrite] at he
    cases he

theorem Serves.wrote_behind (hk : k.Serves u package) (hu : u.Valid) (writes : List Write) :
    Wrote u package k (writes.flatMap (·.entries u)) (k.behind writes) := by
  induction writes generalizing k with
  | nil => exact .refl hk
  | cons w writes ih =>
    have hfirst := (hk.settled hu w).wrote hk
    exact hfirst.append (ih hfirst.serves)

end

section

variable {u : CompiledUnit} {fact : Option Fact} {tuple : List Fact} {memory : Memory} {others : List Value}
  {k : Context} {name : String}

theorem serves_of_new (hu : u.Valid) (hk : u.context fact tuple memory others = .ok k) :
    k.Serves u memory.package := by
  have hsuits := hu.context_suits hk
  obtain ⟨slots, -, rfl⟩ := CompiledUnit.context_eq_ok.1 hk
  exact ⟨rfl, hsuits, rfl⟩

theorem resolve_of_new (hu : u.Valid) (hk : u.context fact tuple memory others = .ok k)
    (hn : name ∉ u.plan.inputs) :
    k.resolve name = (memory.package.bind (·.values.get? name)).elim (.error (.unresolved name)) .ok := by
  rw [(hu.context_suits hk).resolve_scope hu hn]
  obtain ⟨slots, -, rfl⟩ := CompiledUnit.context_eq_ok.1 hk
  rfl

/-- Slots and names are two views of one store. Behind any calls, a name has the value that was written last, by
whatever call, or else the one it had in the new context, which is that of its slot or of the package. A call is
refused exactly for a slot that is not there, a declaration of an input that has a type, or a wrong number of
variables, and changes nothing then. No call changes other names, the number of slots or the package. -/
theorem slots_names_one_store {config : Config} {registry : Registry} {p : Plan} (h : p.compile config registry = .ok u)
    (hk : u.context fact tuple memory others = .ok k) (writes : List Write) :
    (∀ name, (k.behind writes).resolve name =
      (latest? (writes.flatMap (·.entries u)) name).elim (k.resolve name) .ok) ∧
      (∀ name, name ∉ p.inputs → k.resolve name =
        (memory.package.bind (·.values.get? name)).elim (.error (.unresolved name)) .ok) ∧
      (∀ (i : Nat) name, p.inputs[i]? = some name → ∃ (slot : UInt16) (v : Value), slot.toNat = i ∧
        (k.behind writes).slots[i]? = some v ∧ Frame.loadSlot (k.behind writes) slot = .ok v ∧
          Frame.loadName (k.behind writes) name = .ok v) ∧
      (k.behind writes).slots.length = p.inputs.length ∧ (k.behind writes).scope.package = memory.package ∧
      ∀ w, (∀ e, ((k.behind writes).write w).1 = .error e ↔ w.Refused u e) ∧
        (∀ e, ((k.behind writes).write w).1 = .error e → ((k.behind writes).write w).2 = k.behind writes) ∧
        ∀ name, name ∉ (w.entries u).map Prod.fst →
          ((k.behind writes).write w).2.resolve name = (k.behind writes).resolve name := by
  obtain ⟨rfl, hu, -⟩ := CompiledUnit.compile_eq_ok h
  obtain ⟨hserves, hresolved⟩ := (serves_of_new hu hk).wrote_behind hu writes
  have hsuits := hserves.suits
  refine ⟨hresolved, fun name hn => resolve_of_new hu hk hn, fun i name hi => ?_, ?_, hserves.package, fun w => ?_⟩
  · obtain ⟨slot, hslot, -⟩ := hu.refersTo registry hi
    obtain ⟨v, hv, hresolve⟩ := hsuits.resolve_input hu hi
    have hread : (k.behind writes).readSlot slot = .ok v := by
      rw [readSlot, hslot, hv]
    exact ⟨slot, v, hslot, hv, hread, hresolve⟩
  · rw [hsuits.slots_length, hu.inputs_length]
  · have hsettled := hserves.settled hu w
    refine ⟨hsettled.error_iff, fun e he => hsettled.unchanged he, fun name hn => ?_⟩
    rw [(hsettled.wrote hserves).resolved, latest?_of_notMem hn]
    rfl

def shopMemory : Memory where
  globals := [("bonus", .int 2)]
  package := some ⟨"shop", [("currency", .text "EUR")]⟩

def shopWrites : List Write :=
  [.slot 5 (.int 4), .name "currency" (.text "USD")]

theorem slots_names_one_store_shop :
    ∃ k, orderUnit.context (some ⟨7, .record [("amount", .int 5)]⟩) [⟨1, .record [("name", .text "ada")]⟩] shopMemory
        [.int 1] = .ok k ∧
      k.resolve "currency" = .ok (.text "EUR") ∧ (k.behind shopWrites).resolve "total" = .ok (.int 4) ∧
      (k.behind shopWrites).resolve "currency" = .ok (.text "USD") ∧
      (k.behind shopWrites).resolve "bonus" = .ok (.int 2) := by
  have hk : orderUnit.context (some ⟨7, .record [("amount", .int 5)]⟩) [⟨1, .record [("name", .text "ada")]⟩]
      shopMemory [.int 1] = .ok _ := rfl
  obtain ⟨hresolved, hinitial, -⟩ := slots_names_one_store order_compile hk shopWrites
  exact ⟨_, hk, hinitial "currency" (by decide), hresolved "total", hresolved "currency", hresolved "bonus"⟩

end

end Context

end FactFold
