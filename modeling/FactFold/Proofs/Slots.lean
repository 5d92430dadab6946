import FactFold.Proofs.Context

namespace FactFold

open Script

namespace SlotLayout

theorem start_eq (l : SlotLayout) (s : Segment) :
    ∃ front back, Segment.all = front ++ s :: back ∧ l.start s = (front.map l.length).sum := by
  cases s with
  | fact => exact ⟨[], _, rfl, rfl⟩
  | engine => exact ⟨[.fact], _, rfl, rfl⟩
  | globals => exact ⟨[.fact, .engine], _, rfl, rfl⟩
  | previous => exact ⟨[.fact, .engine, .globals], _, rfl, by simp [start, length]; omega⟩
  | locals => exact ⟨[.fact, .engine, .globals, .previous], _, rfl, by simp [start, length]; omega⟩
  | other => exact ⟨[.fact, .engine, .globals, .previous, .locals], _, rfl, by simp [start, length]; omega⟩

theorem slice_eq {l : SlotLayout} {values : Segment → List Value} (h : ∀ s, (values s).length = l.length s)
    (s : Segment) : ((Segment.all.flatMap values).drop (l.start s)).take (l.length s) = values s := by
  obtain ⟨front, back, hall, hstart⟩ := l.start_eq s
  have hfront : (front.flatMap values).length = l.start s := by simp only [List.length_flatMap, h, hstart]
  rw [hall, List.flatMap_append, List.flatMap_cons, ← hfront, List.drop_left, ← h s, List.take_left]

end SlotLayout

namespace Binding

variable {b : Binding} {v w : Value} {cause : ContextCause}

theorem read_eq_ok : b.read v = .ok w ↔ b.extractor.extract? v = some w := by
  unfold read
  cases he : b.extractor.extract? v <;> cases b.extractor <;> simp

theorem read_eq_error :
    b.read v = .error cause ↔
      ∃ name, b.extractor = .field name ∧ v.field? name = none ∧ cause = .missingField b.identifier name := by
  unfold read
  cases hb : b.extractor with
  | whole => simp [Extractor.extract?]
  | field name =>
    cases hv : v.field? name with
    | none => simp [Extractor.extract?, hv, eq_comm]
    | some w => simp [Extractor.extract?, hv]

end Binding

namespace CompiledUnit

section

variable (u : CompiledUnit) (fact : Option Fact) (tuple : List Fact) (memory : Memory) (others : List Value)

def Filled : Segment → List Value → Prop
  | .fact, vs => if u.layout.hasFact then ∃ source, fact = some source ∧ vs = [source.value] else vs = []
  | .engine, vs => vs = u.plan.engine.map memory.handle
  | .globals, vs => vs = u.plan.globals.map memory.global
  | .previous, vs =>
    List.Forall₂
      (fun b v => ∃ source, tuple[b.offset.toNat]? = some source ∧ b.extractor.extract? source.value = some v)
      u.plan.previous vs
  | .locals, vs =>
    List.Forall₂
      (fun b v =>
        match fact with
        | some source => b.extractor.extract? source.value = some v
        | none => v = .null)
      u.plan.locals vs
  | .other, vs => vs = others

inductive Lacks : ContextCause → Prop where
  | fact (h : u.layout.hasFact = true) (hf : fact = none) : Lacks .missingFact
  | tupleFact {b : Binding} (hb : b ∈ u.plan.previous) (h : tuple.length ≤ b.offset.toNat) :
      Lacks (.missingTupleFact b.identifier b.offset.toNat tuple.length)
  | tupleField {b : Binding} {source : Fact} {name : String} (hb : b ∈ u.plan.previous)
      (hs : tuple[b.offset.toNat]? = some source) (he : b.extractor = .field name)
      (h : source.value.field? name = none) : Lacks (.missingField b.identifier name)
  | factField {b : Binding} {source : Fact} {name : String} (hb : b ∈ u.plan.locals) (hs : fact = some source)
      (he : b.extractor = .field name) (h : source.value.field? name = none) :
      Lacks (.missingField b.identifier name)
  | others (h : others.length ≠ u.layout.other) : Lacks (.otherCount u.layout.other others.length)

end

variable {u : CompiledUnit} {fact : Option Fact} {tuple : List Fact} {memory : Memory} {others slots : List Value}
  {cause : ContextCause}

def parts (u : CompiledUnit) (memory : Memory) (folded previous locals others : List Value) : Segment → List Value
  | .fact => folded
  | .engine => u.plan.engine.map memory.handle
  | .globals => u.plan.globals.map memory.global
  | .previous => previous
  | .locals => locals
  | .other => others

theorem Valid.filled (h : u.Valid) (hs : u.slotValues fact tuple memory others = .ok slots) :
    ∃ values : Segment → List Value, slots = Segment.all.flatMap values ∧
      ∀ s, (values s).length = u.layout.length s ∧ u.Filled fact tuple memory others s (values s) := by
  obtain ⟨-, -, -, -, he, hg, hp, hl, -⟩ := Plan.layout_eq_ok h.layout
  obtain ⟨folded, previous, locals, hfolded, hprevious, hlocals, hothers, rfl⟩ := slotValues_eq_ok.1 hs
  have hprevious := mapM_eq_ok.1 hprevious
  have hlocals := mapM_eq_ok.1 hlocals
  refine ⟨u.parts memory folded previous locals others, by simp [Segment.all, parts], ?_⟩
  intro s
  cases s with
  | fact => exact ⟨h.factValues_length hfolded, factValues_eq_ok.1 hfolded⟩
  | engine => exact ⟨by rw [parts, List.length_map, SlotLayout.length, he], rfl⟩
  | globals => exact ⟨by rw [parts, List.length_map, SlotLayout.length, hg], rfl⟩
  | previous =>
    refine ⟨by rw [parts, ← hprevious.length_eq, SlotLayout.length, hp], hprevious.imp fun b v hv => ?_⟩
    unfold Binding.readTuple at hv
    split at hv
    · next source hsource => exact ⟨source, hsource, Binding.read_eq_ok.1 hv⟩
    · cases hv
  | locals =>
    refine ⟨by rw [parts, ← hlocals.length_eq, SlotLayout.length, hl], hlocals.imp fun b v hv => ?_⟩
    cases fact with
    | some source => exact Binding.read_eq_ok.1 hv
    | none => exact (Except.ok.inj hv).symm
  | other => exact ⟨hothers, rfl⟩

theorem lacks_of_error (h : u.slotValues fact tuple memory others = .error cause) :
    u.Lacks fact tuple others cause := by
  rcases bind_eq_error.1 h with hf | ⟨folded, -, h⟩
  · unfold factValues at hf
    split at hf
    · next hfact =>
      cases fact with
      | some source => cases hf
      | none =>
        cases hf
        exact .fact hfact rfl
    · cases hf
  rcases bind_eq_error.1 h with hp | ⟨previous, -, h⟩
  · obtain ⟨b, hb, hread⟩ := mapM_eq_error hp
    unfold Binding.readTuple at hread
    split at hread
    · next source hsource =>
      obtain ⟨name, hname, hfield, rfl⟩ := Binding.read_eq_error.1 hread
      exact .tupleField hb hsource hname hfield
    · next hnone =>
      cases hread
      exact .tupleFact hb (List.getElem?_eq_none_iff.1 hnone)
  rcases bind_eq_error.1 h with hl | ⟨locals, -, h⟩
  · obtain ⟨b, hb, hread⟩ := mapM_eq_error hl
    cases fact with
    | none => cases hread
    | some source =>
      obtain ⟨name, hname, hfield, rfl⟩ := Binding.read_eq_error.1 hread
      exact .factField hb rfl hname hfield
  split at h
  · cases h
  · next hothers =>
    cases h
    exact .others hothers

theorem Lacks.not_built (h : u.Lacks fact tuple others cause) :
    u.slotValues fact tuple memory others ≠ .ok slots := by
  intro hs
  obtain ⟨folded, previous, locals, hfolded, hprevious, hlocals, hothers, -⟩ := slotValues_eq_ok.1 hs
  cases h with
  | fact hfact hf =>
    rw [factValues_eq_ok, if_pos hfact, hf] at hfolded
    obtain ⟨source, hsource, -⟩ := hfolded
    cases hsource
  | @tupleFact b hb hlength =>
    obtain ⟨v, hv⟩ := exists_of_mapM_eq_ok hprevious hb
    rw [Binding.readTuple, List.getElem?_eq_none hlength] at hv
    cases hv
  | @tupleField b source name hb hsource hname hfield =>
    obtain ⟨v, hv⟩ := exists_of_mapM_eq_ok hprevious hb
    rw [Binding.readTuple, hsource] at hv
    rw [Binding.read_eq_ok, hname, Extractor.extract?, hfield] at hv
    cases hv
  | @factField b source name hb hsource hname hfield =>
    subst hsource
    obtain ⟨v, hv⟩ := exists_of_mapM_eq_ok hlocals hb
    have hv : b.read source.value = .ok v := hv
    rw [Binding.read_eq_ok, hname, Extractor.extract?, hfield] at hv
    cases hv
  | others hne => exact hne hothers

theorem context_fails_iff :
    (∃ e, u.context fact tuple memory others = .error e) ↔ ∃ cause, u.Lacks fact tuple others cause := by
  constructor
  · rintro ⟨e, he⟩
    exact ⟨e.cause, lacks_of_error (context_eq_error.1 he).1⟩
  · rintro ⟨cause, h⟩
    cases hk : u.context fact tuple memory others with
    | error e => exact ⟨e, rfl⟩
    | ok k =>
      obtain ⟨slots, hs, -⟩ := context_eq_ok.1 hk
      exact absurd hs h.not_built

theorem Valid.segments (h : u.Valid) {k : Context} (hk : u.context fact tuple memory others = .ok k) :
    k.slots = Segment.all.flatMap k.segment ∧
      ∀ s, (k.segment s).length = u.layout.length s ∧ u.Filled fact tuple memory others s (k.segment s) := by
  obtain ⟨slots, hs, rfl⟩ := context_eq_ok.1 hk
  obtain ⟨values, rfl, hvalues⟩ := h.filled hs
  have hsegment (s : Segment) : Context.segment ⟨u.name, u.inputs, Segment.all.flatMap values, u.layout,
      { package := memory.package }⟩ s = values s := SlotLayout.slice_eq (fun s => (hvalues s).1) s
  refine ⟨?_, fun s => ?_⟩
  · simp only [funext hsegment]
  · rw [hsegment]
    exact hvalues s

theorem Valid.inputs_length (h : u.Valid) : u.plan.inputs.length = u.layout.size := by
  obtain ⟨front, hinputs, hlength⟩ := Plan.inputs_eq h.layout
  rw [hinputs, List.length_append, hlength, SlotLayout.size, SlotLayout.stop, SlotLayout.length, h.layout_other]

theorem Valid.slots_length (h : u.Valid) {k : Context} (hk : u.context fact tuple memory others = .ok k) :
    k.slots.length = u.plan.inputs.length := by
  obtain ⟨front, hsplits, -⟩ := h.context hk
  rw [h.inputs_length, hsplits.slots, List.length_append, hsplits.front, hsplits.vars]
  rfl

theorem Valid.slot? (h : u.Valid) {k : Context} (hk : u.context fact tuple memory others = .ok k) {i : Nat}
    {name : String} (hi : u.plan.inputs[i]? = some name) : k.slot? name = some i := by
  obtain ⟨slots, -, rfl⟩ := context_eq_ok.1 hk
  rw [Context.slot?, position?_eq h]
  exact findIdx?_of_getElem? h.once hi

end CompiledUnit

/-- Wherever a script reads or writes the name, it reads or writes the slot, whatever is declared there and
whatever constants have the name. -/
structure Script.Compiler.RefersTo (c : Compiler) (name : String) (slot : UInt16) : Prop where
  reads : ∀ span d, c.expr (.name name span) d = .ok ([.loadSlot slot], d)
  inPaths : ∀ e d, e.root? = some name → c.constantPath? d e = none
  writes : ∀ span d code d', c.store name span d = .ok (code, d') → code.getLast? = some (.storeSlot slot)

theorem Script.Compiler.refersTo_of_input {c : Compiler} {name : String} {slot : UInt16} {type : ValueType}
    (h : c.symbols.input name = some (slot, type)) : c.RefersTo name slot := by
  have hclassify (d : Draft) : c.classify d name = .slot slot type := by simp only [classify, h]
  refine ⟨fun span d => ?_, fun e d he => ?_, fun span d code d' hcode => ?_⟩
  · simp only [expr, load, hclassify]
  · simp [constantPath?, he, hclassify]
  · simp only [store, hclassify] at hcode
    split at hcode
    · obtain ⟨⟨i, d₁⟩, -, hcode⟩ := map_eq_ok.1 hcode
      cases hcode
      rfl
    · cases hcode
      rfl

theorem CompiledUnit.Valid.refersTo {u : CompiledUnit} (h : u.Valid) (registry : Registry) {i : Nat} {name : String}
    (hi : u.plan.inputs[i]? = some name) :
    ∃ slot : UInt16, slot.toNat = i ∧ (u.compiler registry).RefersTo name slot := by
  obtain ⟨type, -, hinput, hslot⟩ := h.input (r := registry) (findIdx?_of_getElem? h.once hi)
  exact ⟨_, hslot, Compiler.refersTo_of_input hinput⟩

/-- The places that a unit is compiled with are those that its contexts are filled by: the program comes from a
compiler for which the `i`-th input name is slot `i`, every context that is built holds there what the plan
binds to that name, segment by segment, and a context is not built exactly if something that the plan binds is
lacking. -/
theorem slots_agree {config : Config} {registry : Registry} {p : Plan} {u : CompiledUnit}
    (h : p.compile config registry = .ok u) (fact : Option Fact) (tuple : List Fact) (memory : Memory)
    (others : List Value) :
    u.plan = p ∧ p.validate = .ok u.layout ∧
      (u.compiler registry).source config.maxNestingDepth.toNat (Text.trim p.expression) = .ok u.program ∧
      (∀ (i : Nat) name, p.inputs[i]? = some name → ∃ slot : UInt16, slot.toNat = i ∧
        (u.compiler registry).RefersTo name slot ∧
        ∀ k, u.context fact tuple memory others = .ok k →
          ∃ v, k.slots[i]? = some v ∧ k.readSlot slot = .ok v ∧ k.resolve name = .ok v) ∧
      (∀ k, u.context fact tuple memory others = .ok k →
        k.slots.length = p.inputs.length ∧ k.slots = Segment.all.flatMap k.segment ∧
          (∀ s, (k.segment s).length = u.layout.length s ∧ u.Filled fact tuple memory others s (k.segment s)) ∧
          k.others = others) ∧
      (∀ e, u.context fact tuple memory others = .error e → e.unit = p.name ∧ u.Lacks fact tuple others e.cause) ∧
      ((∃ e, u.context fact tuple memory others = .error e) ↔ ∃ cause, u.Lacks fact tuple others cause) := by
  obtain ⟨-, hlayout, -, hsource⟩ := CompiledUnit.compile_steps h
  obtain ⟨rfl, hvalid, -⟩ := CompiledUnit.compile_eq_ok h
  refine ⟨rfl, hlayout, hsource, fun i name hi => ?_, fun k hk => ?_, fun e he => ?_, CompiledUnit.context_fails_iff⟩
  · obtain ⟨slot, hslot, hrefers⟩ := hvalid.refersTo registry hi
    refine ⟨slot, hslot, hrefers, fun k hk => ?_⟩
    have hlt : i < k.slots.length := by
      rw [hvalid.slots_length hk]
      exact (List.getElem?_eq_some_iff.1 hi).1
    have hv : k.slots[i]? = some k.slots[i] := List.getElem?_eq_getElem hlt
    refine ⟨k.slots[i], hv, ?_, ?_⟩
    · rw [Context.readSlot, hslot, hv]
    · simp [Context.resolve, hvalid.slot? hk hi, hv]
  · obtain ⟨hall, hsegments⟩ := hvalid.segments hk
    exact ⟨hvalid.slots_length hk, hall, hsegments, (hsegments .other).2⟩
  · obtain ⟨hcause, hunit⟩ := CompiledUnit.context_eq_error.1 he
    exact ⟨hunit, CompiledUnit.lacks_of_error hcause⟩

def orderPlan : Plan where
  name := "order"
  expression := "total + $amount * bonus"
  engine := ["engine"]
  globals := ["bonus"]
  previous := [⟨0, "$customer", 0, .field "name"⟩]
  locals := [⟨1, "$amount", 0, .field "amount"⟩]
  others := ["total"]
  inputs := ["$fact", "engine", "bonus", "$customer", "$amount", "total"]
  inputTypes := ["Object", "Object", "Object", "Object", "Object", "Object"]

def orderRegistry : Registry :=
  ⟨[("Object", .any)], [], []⟩

def orderUnit : CompiledUnit where
  plan := orderPlan
  layout := ⟨1, 1, 1, 1, 1, 1⟩
  inputs := orderPlan.inputs.map fun name => (name, .any)
  program :=
    { chunk :=
        { ops := [.loadSlot 5, .loadSlot 4, .loadSlot 2, .strict (.arith .mul), .strict (.arith .add), .ret] }
      natives := [] }
  maxStackDepth := 1024

set_option maxRecDepth 100000 in
theorem order_compile : orderPlan.compile {} orderRegistry = .ok orderUnit := by
  cbv

theorem slots_agree_order :
    (∃ k, orderUnit.context (some ⟨7, .record [("amount", .int 5)]⟩) [⟨1, .record [("name", .text "ada")]⟩]
        { globals := [("bonus", .int 2)] } [.int 1] = .ok k ∧
      k.resolve "$amount" = .ok (.int 5) ∧ k.segment .globals = [.int 2] ∧ k.others = [.int 1]) ∧
    ∃ e, orderUnit.context none [] {} [.int 1] = .error e := by
  constructor
  · obtain ⟨-, -, -, hnames, hbuilt, -⟩ := slots_agree order_compile
      (some ⟨7, .record [("amount", .int 5)]⟩) [⟨1, .record [("name", .text "ada")]⟩]
      { globals := [("bonus", .int 2)] } [.int 1]
    obtain ⟨slot, -, -, hreads⟩ := hnames 4 "$amount" rfl
    obtain ⟨v, hv, -, hresolve⟩ := hreads _ rfl
    obtain ⟨-, -, hsegments, hothers⟩ := hbuilt _ rfl
    cases hv
    exact ⟨_, rfl, hresolve, (hsegments .globals).2, hothers⟩
  · exact (slots_agree order_compile none [] {} [.int 1]).2.2.2.2.2.2.2 ⟨_, .fact rfl rfl⟩

end FactFold
