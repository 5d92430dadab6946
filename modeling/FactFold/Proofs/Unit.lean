import FactFold.Proofs.Script.Dependence
import FactFold.Unit

namespace FactFold

open Script

namespace Plan

variable {p : Plan} {l : SlotLayout}

def Parses (p : Plan) (depth : Nat) (ss : List Stmt) : Prop :=
  ∃ ls, lexemes (Text.trim p.expression) = .ok ls ∧ parseScript depth ls = .ok ss

theorem Parses.unique {depth : Nat} {ss ss' : List Stmt} (h : p.Parses depth ss) (h' : p.Parses depth ss') :
    ss = ss' := by
  obtain ⟨ls, hl, hs⟩ := h
  obtain ⟨ls', hl', hs'⟩ := h'
  obtain rfl : ls = ls' := Except.ok.inj (hl.symm.trans hl')
  exact Except.ok.inj (hs.symm.trans hs')

theorem Parses.of_toOption {depth : Nat} {ss : List Stmt}
    (h : ((lexemes (Text.trim p.expression)).toOption.bind fun ls => (parseScript depth ls).toOption) =
      some ss) :
    p.Parses depth ss := by
  obtain ⟨ls, hl, hs⟩ := Option.bind_eq_some_iff.1 h
  refine ⟨ls, ?_, ?_⟩
  · cases hx : lexemes (Text.trim p.expression) with
    | error e => simp [hx, Except.toOption] at hl
    | ok ls' => simpa [hx, Except.toOption] using hl
  · cases hx : parseScript depth ls with
    | error e => simp [hx, Except.toOption] at hs
    | ok ss' => simpa [hx, Except.toOption] using hs

end Plan

theorem repeated?_eq_none {seen names : List String} (h : repeated? seen names = none) :
    names.Nodup ∧ ∀ n ∈ names, n ∉ seen := by
  induction names generalizing seen with
  | nil => simp
  | cons n names ih =>
    simp only [repeated?] at h
    split at h
    · cases h
    · next hn =>
      obtain ⟨hnodup, hseen⟩ := ih h
      refine ⟨List.nodup_cons.2 ⟨fun hmem => hseen n hmem (List.mem_cons_self ..), hnodup⟩, ?_⟩
      intro m hm hs
      rcases List.mem_cons.1 hm with rfl | hm
      · exact hn (by simpa using hs)
      · exact hseen m hm (List.mem_cons_of_mem _ hs)

theorem mismatch?_eq_none {slot : Nat} {names inputs : List String} (hl : names.length = inputs.length)
    (h : mismatch? slot names inputs = none) : inputs = names := by
  induction names generalizing slot inputs with
  | nil => exact List.length_eq_zero_iff.1 hl.symm
  | cons n names ih =>
    cases inputs with
    | nil => cases hl
    | cons m inputs =>
      simp only [mismatch?] at h
      split at h
      · next hn => rw [hn, ih (Nat.succ.inj hl) h]
      · cases h

namespace Plan

variable {p : Plan} {l : SlotLayout}

theorem layout_eq_ok (h : p.layout = .ok l) :
    p.inputs.length ≤ UInt16.size ∧ l.fact ≤ 1 ∧ p.inputs = p.inputs.take l.fact ++ p.named ∧
      l.fact ≤ p.inputs.length ∧ l.engine = p.engine.length ∧ l.globals = p.globals.length ∧
      l.previous = p.previous.length ∧ l.locals = p.locals.length ∧ l.other = p.others.length := by
  unfold layout at h
  dsimp only at h
  split at h
  · cases h
  · next hlimit =>
    split at h
    · cases h
    · next hcount =>
      split at h
      · cases h
      · next hm =>
        have hdrop := mismatch?_eq_none (by rw [List.length_drop]; omega) hm
        have hsplit := (List.take_append_drop (p.inputs.length - p.named.length) p.inputs).symm
        rw [hdrop] at hsplit
        cases h
        exact ⟨by omega, by dsimp only; omega, hsplit, by dsimp only; omega, rfl, rfl, rfl, rfl, rfl⟩

theorem validate_eq_ok (h : p.validate = .ok l) :
    p.inputs.Nodup ∧ p.inputs.length = p.inputTypes.length ∧ p.layout = .ok l := by
  unfold validate at h
  split at h
  · cases h
  · next hlength =>
    split at h
    · cases h
    · next hnone =>
      split at h
      · cases h
      · exact ⟨(repeated?_eq_none hnone).1, by simpa using hlength, h⟩

theorem inputs_eq (h : p.layout = .ok l) :
    ∃ front, p.inputs = front ++ p.others ∧ front.length = l.start .other := by
  obtain ⟨-, -, hi, hf, he, hg, hp, hl, -⟩ := layout_eq_ok h
  refine ⟨p.inputs.take l.fact ++ p.engine ++ p.globals ++ p.previous.map (·.identifier) ++
    p.locals.map (·.identifier), ?_, ?_⟩
  · apply hi.trans
    simp only [named, List.append_assoc]
  · simp only [List.length_append, List.length_take, List.length_map, SlotLayout.start, he, hg, hp, hl]
    omega

theorem resolveInputs_names {r : Registry} {imports : Imports} {pairs : List (String × String)}
    {found inputs : Entries String ValueType} (h : resolveInputs r imports pairs found = .ok inputs) :
    inputs.map Prod.fst = found.reverse.map Prod.fst ++ pairs.map Prod.fst := by
  induction pairs generalizing found with
  | nil => rw [← Except.ok.inj h, List.map_nil, List.append_nil]
  | cons pair pairs ih =>
    obtain ⟨name, typeName⟩ := pair
    simp only [resolveInputs] at h
    split at h
    · rw [ih h]
      simp
    · cases h

theorem resolveInputs_mem {r : Registry} {imports : Imports} {pairs : List (String × String)}
    {found inputs : Entries String ValueType} (h : resolveInputs r imports pairs found = .ok inputs) :
    (∀ entry ∈ found, entry ∈ inputs) ∧
      ∀ pair ∈ pairs, ∃ type, imports.type? r pair.2 = some type ∧ (pair.1, type) ∈ inputs := by
  induction pairs generalizing found with
  | nil =>
    rw [← Except.ok.inj h]
    exact ⟨fun _ hentry => List.mem_reverse.2 hentry, by simp⟩
  | cons pair pairs ih =>
    obtain ⟨name, typeName⟩ := pair
    simp only [resolveInputs] at h
    split at h
    · next type htype =>
      obtain ⟨hfound, hpairs⟩ := ih h
      refine ⟨fun entry hentry => hfound entry (List.mem_cons_of_mem _ hentry), fun pair hpair => ?_⟩
      rcases List.mem_cons.1 hpair with rfl | hpair
      · exact ⟨type, htype, hfound _ (List.mem_cons_self ..)⟩
      · exact hpairs pair hpair
    · cases h

end Plan

theorem Plan.compile_iff {p : Plan} {config : Config} {r : Registry} {u : CompiledUnit} :
    p.compile config r = .ok u ↔
      ¬ (p.languageLevel = 0 ∨ maxLanguageLevel < p.languageLevel) ∧
        ∃ layout imports inputs program, p.validate = .ok layout ∧ Imports.ofPlan p r = .ok imports ∧
          resolveInputs r imports (p.inputs.zip p.inputTypes) [] = .ok inputs ∧
          (Compiler.mk (unitSymbols r imports inputs) p.strict).source config.maxNestingDepth.toNat
              (Text.trim p.expression) = .ok program ∧
          u = ⟨p, layout, inputs, program, config.maxStackDepth.toNat⟩ := by
  unfold compile
  dsimp only
  constructor
  · intro h
    split at h
    · cases h
    · next hlevel =>
      cases hl : p.validate with
      | error e => simp [hl, bind, Except.bind] at h
      | ok layout =>
        cases hi : Imports.ofPlan p r with
        | error e => simp [hl, hi, bind, Except.bind] at h
        | ok imports =>
          cases hs : resolveInputs r imports (p.inputs.zip p.inputTypes) [] with
          | error e => simp [hl, hi, hs, bind, Except.bind] at h
          | ok inputs =>
            simp only [hl, hi, hs, ok_bind] at h
            split at h
            · next program hp =>
              cases h
              exact ⟨hlevel, layout, imports, inputs, program, rfl, rfl, hs, hp, rfl⟩
            · cases h
  · rintro ⟨hlevel, layout, imports, inputs, program, hl, hi, hs, hp, rfl⟩
    rw [if_neg hlevel]
    simp only [hl, hi, hs, hp, ok_bind]
    rfl

theorem Plan.compile_error_cases {p : Plan} {config : Config} {r : Registry} {e : CompileError}
    (h : p.compile config r = .error e) :
    (∃ level, e.cause = .languageLevel level) ∨ (∃ error, e.cause = .invalidPlan error) ∨
      e.cause = .unresolvedImport ∨ (∃ input, e.cause = .unresolvedType input) ∨
      ∃ (c : Compiler) (error : ScriptError),
        c.source config.maxNestingDepth.toNat (Text.trim p.expression) = .error error ∧ e.cause = .script error := by
  unfold compile at h
  dsimp only at h
  split at h
  · cases h
    exact .inl ⟨_, rfl⟩
  cases hl : p.validate with
  | error error =>
    simp only [hl, bind, Except.bind] at h
    cases h
    exact .inr (.inl ⟨_, rfl⟩)
  | ok layout =>
    cases hi : Imports.ofPlan p r with
    | error name =>
      simp only [hl, hi, bind, Except.bind] at h
      cases h
      exact .inr (.inr (.inl rfl))
    | ok imports =>
      cases hs : resolveInputs r imports (p.inputs.zip p.inputTypes) [] with
      | error input =>
        simp only [hl, hi, hs, bind, Except.bind] at h
        cases h
        exact .inr (.inr (.inr (.inl ⟨_, rfl⟩)))
      | ok inputs =>
        simp only [hl, hi, hs, ok_bind] at h
        split at h
        · cases h
        · next hsource =>
          cases h
          exact .inr (.inr (.inr (.inr ⟨_, _, hsource, rfl⟩)))

namespace CompiledUnit

variable {u : CompiledUnit} {r : Registry}

def compiler (r : Registry) (u : CompiledUnit) : Compiler :=
  ⟨unitSymbols r ((Imports.ofPlan u.plan r).toOption.getD ⟨[], [], [], []⟩) u.inputs, u.plan.strict⟩

/-- The unit comes from a valid plan: its slots are those of the layout, under the names of the inputs. -/
structure Valid (u : CompiledUnit) : Prop where
  layout : u.plan.layout = .ok u.layout
  names : u.inputs.map Prod.fst = u.plan.inputs
  once : u.plan.inputs.Nodup

theorem Valid.layout_other (h : u.Valid) : u.layout.other = u.plan.others.length :=
  (Plan.layout_eq_ok h.layout).2.2.2.2.2.2.2.2

theorem Valid.others_nodup (h : u.Valid) : u.plan.others.Nodup := by
  obtain ⟨front, hfront, -⟩ := Plan.inputs_eq h.layout
  exact (List.nodup_append.1 (hfront ▸ h.once)).2.1

theorem Valid.input_of_other (h : u.Valid) {i : Nat} {name : String} (hi : u.plan.others[i]? = some name) :
    u.plan.inputs[u.layout.start .other + i]? = some name := by
  obtain ⟨front, hinputs, hstart⟩ := Plan.inputs_eq h.layout
  rw [hinputs, ← hstart, List.getElem?_append_right (Nat.le_add_right ..), Nat.add_sub_cancel_left, hi]

theorem Valid.input_lt_of_notMem (h : u.Valid) {i : Nat} {name : String} (hi : u.plan.inputs[i]? = some name)
    (hn : name ∉ u.plan.others) : i < u.layout.start .other := by
  obtain ⟨front, hinputs, hstart⟩ := Plan.inputs_eq h.layout
  by_contra hge
  rw [hinputs, List.getElem?_append_right (by omega)] at hi
  exact hn (List.mem_of_getElem? hi)

theorem compile_steps {p : Plan} {config : Config} (h : p.compile config r = .ok u) :
    u.plan = p ∧ p.validate = .ok u.layout ∧
      (∃ imports, Imports.ofPlan p r = .ok imports ∧
        Plan.resolveInputs r imports (p.inputs.zip p.inputTypes) [] = .ok u.inputs) ∧
      (u.compiler r).source config.maxNestingDepth.toNat (Text.trim p.expression) = .ok u.program := by
  obtain ⟨-, layout, imports, inputs, program, hl, hi, hs, hp, rfl⟩ := Plan.compile_iff.1 h
  refine ⟨rfl, hl, ⟨imports, hi, hs⟩, ?_⟩
  rw [compiler, hi]
  exact hp

theorem compile_eq_ok {p : Plan} {config : Config} (h : p.compile config r = .ok u) :
    u.plan = p ∧ u.Valid ∧
      ∃ ss, p.Parses config.maxNestingDepth.toNat ss ∧ (u.compiler r).program ss = .ok u.program := by
  obtain ⟨rfl, hvalidate, ⟨imports, -, hinputs⟩, hsource⟩ := compile_steps h
  obtain ⟨once, hlength, hlayout⟩ := Plan.validate_eq_ok hvalidate
  have hnames := Plan.resolveInputs_names hinputs
  rw [List.reverse_nil, List.map_nil, List.nil_append, List.map_fst_zip (by omega)] at hnames
  obtain ⟨ls, hls, hsource⟩ := bind_eq_ok.1 hsource
  obtain ⟨ss, hss, hprogram⟩ := bind_eq_ok.1 hsource
  exact ⟨rfl, ⟨hlayout, hnames, once⟩, ss, ⟨ls, mapError_eq_ok.1 hls, mapError_eq_ok.1 hss⟩, hprogram⟩

theorem compile_types {p : Plan} {config : Config} (h : p.compile config r = .ok u) :
    ∃ imports, Imports.ofPlan p r = .ok imports ∧ ∀ input ∈ p.inputs.zip p.inputTypes,
      u.inputs.get? input.1 = imports.type? r input.2 := by
  obtain ⟨-, hvalid, -⟩ := compile_eq_ok h
  obtain ⟨-, -, ⟨imports, hi, hinputs⟩, -⟩ := compile_steps h
  refine ⟨imports, hi, fun input hinput => ?_⟩
  obtain ⟨type, htype, hmem⟩ := (Plan.resolveInputs_mem hinputs).2 input hinput
  have honce : (u.inputs.map Prod.fst).Nodup := by
    rw [hvalid.names]
    exact hvalid.once
  rw [htype]
  exact Entries.get?_eq_some_of_mem honce hmem

theorem input_eq (u : CompiledUnit) (r : Registry) (name : String) :
    (u.compiler r).symbols.input name =
      match u.inputs.position? name, u.inputs.get? name with
      | some slot, some type => if slot < UInt16.size then some (UInt16.ofNat slot, type) else none
      | _, _ => none :=
  rfl

theorem position?_eq (h : u.Valid) (name : String) :
    u.inputs.position? name = u.plan.inputs.findIdx? (· == name) := by
  rw [Entries.position?, ← h.names, List.findIdx?_map]
  congr 1
  funext entry
  exact BEq.comm

theorem Valid.input (h : u.Valid) {name : String} {i : Nat} (hi : u.plan.inputs.findIdx? (· == name) = some i) :
    ∃ type, u.inputs.get? name = some type ∧ (u.compiler r).symbols.input name = some (UInt16.ofNat i, type) ∧
      (UInt16.ofNat i).toNat = i := by
  obtain ⟨hlt, hname, -⟩ := List.findIdx?_eq_some_iff_getElem.1 hi
  have hlimit := (Plan.layout_eq_ok h.layout).1
  have hmem : name ∈ u.inputs.map Prod.fst := by
    rw [h.names, ← eq_of_beq hname]
    exact List.getElem_mem hlt
  cases ht : u.inputs.get? name with
  | none => exact absurd hmem ((Entries.get?_eq_none_iff _ _).1 ht)
  | some type =>
    have hslot : i < UInt16.size := by omega
    refine ⟨type, rfl, ?_, UInt16.toNat_ofNat_of_lt hslot⟩
    simp only [input_eq, position?_eq h, hi, ht, hslot, if_true]

theorem Valid.input_variable (h : u.Valid) {name : String} {i : Nat}
    (hi : u.plan.others.findIdx? (· == name) = some i) :
    ∃ slot type, u.inputs.get? name = some type ∧ (u.compiler r).symbols.input name = some (slot, type) ∧
      slot.toNat = u.layout.start .other + i := by
  obtain ⟨front, hf, hlength⟩ := Plan.inputs_eq h.layout
  -- inputs are distinct, so nothing in front has the name of a variable
  have hnot : front.findIdx? (· == name) = none := by
    rw [List.findIdx?_eq_none_iff]
    intro n hn
    obtain ⟨hlt, hname, -⟩ := List.findIdx?_eq_some_iff_getElem.1 hi
    have hdisjoint := (List.nodup_append.1 (hf ▸ h.once)).2.2 n hn _ (List.getElem_mem hlt)
    rw [eq_of_beq hname] at hdisjoint
    exact beq_eq_false_iff_ne.2 hdisjoint
  have hpos : u.plan.inputs.findIdx? (· == name) = some (i + front.length) := by
    rw [hf, List.findIdx?_append, hnot, hi]
    rfl
  obtain ⟨type, ht, hinput, hslot⟩ := h.input (r := r) hpos
  exact ⟨_, type, ht, hinput, by rw [hslot, hlength]; omega⟩

theorem Valid.input_front (h : u.Valid) {name : String} (hi : name ∈ u.plan.inputs)
    (ho : name ∉ u.plan.others) :
    ∃ slot type, (u.compiler r).symbols.input name = some (slot, type) ∧
      slot.toNat < u.layout.start .other := by
  obtain ⟨front, hf, hlength⟩ := Plan.inputs_eq h.layout
  have hmem : name ∈ front := by
    rw [hf, List.mem_append] at hi
    exact hi.resolve_right ho
  cases hp : front.findIdx? (· == name) with
  | none =>
    have := List.findIdx?_eq_none_iff.1 hp name hmem
    simp at this
  | some i =>
    have hlt := (List.findIdx?_eq_some_iff_getElem.1 hp).1
    have hpos : u.plan.inputs.findIdx? (· == name) = some i := by
      rw [hf, List.findIdx?_append, hp]
      rfl
    obtain ⟨type, -, hinput, hslot⟩ := h.input (r := r) hpos
    exact ⟨_, type, hinput, by rw [hslot]; omega⟩

theorem Valid.input_none (h : u.Valid) {name : String} (hn : name ∉ u.plan.inputs) :
    u.inputs.position? name = none ∧ (u.compiler r).symbols.input name = none := by
  have hp : u.inputs.position? name = none := by
    rw [position?_eq h, List.findIdx?_eq_none_iff]
    intro n hmem
    exact beq_eq_false_iff_ne.2 fun he => hn (he ▸ hmem)
  exact ⟨hp, by rw [input_eq, hp]⟩

end CompiledUnit

end FactFold
