import FactFold.Proofs.Accumulator.Calls
import FactFold.Proofs.Accumulator.Units
import FactFold.Proofs.Accumulator.Updates

/-!
The action of an accumulator adds to its variables, and its reversal takes the same away. Both scripts are
compiled on their own: the values that they work with are the same if names, functions and literals stand
for the same in both. A reversal then takes away what the fold of its snapshot has added.
-/

namespace FactFold

open Script

def SameFunction (r : Registry) (u v : CompiledUnit) (function : String) : Prop :=
  (u.compiler r).symbols.function function = (v.compiler r).symbols.function function

/-- The action of a compiled accumulator adds to distinct variables, and the reversal takes the same away.
What is added comes from inputs that are no variables, from literals and from functions. -/
structure Mirrored (config : Config) (r : Registry) (a : Accumulator) (units : CompiledUnits)
    (reverse : CompiledUnit) (pairs back : Entries String Expr) : Prop where
  compiled : a.compiled = some units
  made : a.units config r = .ok units
  reversible : units.reverse = some reverse
  adds : ∃ ss, a.action.Parses config.maxNestingDepth.toNat ss ∧ Updates .add pairs ss
  subtracts : ∃ ss, reverse.plan.Parses config.maxNestingDepth.toNat ss ∧ Updates .sub back ss
  perm : back.Perm pairs
  distinct : (pairs.map Prod.fst).Nodup
  targets : ∀ x ∈ pairs.map Prod.fst, x ∈ a.init.others
  within : ∀ pair ∈ pairs, pair.2.Within (fun n => n ∈ a.action.inputs ∧ n ∉ a.init.others) fun _ => True

/-- The reversal understands the same by what it takes away as the action by what it adds. -/
structure Invertible (config : Config) (r : Registry) (a : Accumulator) (units : CompiledUnits)
    (reverse : CompiledUnit) (pairs back : Entries String Expr) : Prop
    extends Mirrored config r a units reverse pairs back where
  -- A checked store makes an integer a float where floats are declared.
  unwidened : (a.action.strict || reverse.plan.strict) = true →
    ∀ x ∈ pairs.map Prod.fst, units.action.inputs.get? x ≠ some .float
  functions : ∀ pair ∈ pairs, pair.2.Within (fun _ => True) (SameFunction r reverse units.action)
  -- In another order, other literals may stand for those that are equal to them.
  order : back = pairs ∨ Faithful (units.action.literals r pairs)

theorem Mirrored.isReversible {config : Config} {r : Registry} {a : Accumulator} {units : CompiledUnits}
    {reverse : CompiledUnit} {pairs back : Entries String Expr}
    (h : Mirrored config r a units reverse pairs back) : a.isReversible = true := by
  obtain ⟨-, -, -, hreverse⟩ := Accumulator.units_eq_ok h.made
  obtain ⟨p, hp, -⟩ := hreverse reverse h.reversible
  rw [Accumulator.isReversible, hp]
  rfl

structure Inverse (r : Registry) (a : Accumulator) (units : CompiledUnits) (reverse : CompiledUnit)
    (pairs back : Entries String Expr) : Prop where
  compiled : a.compiled = some units
  reversible : units.reverse = some reverse
  adds : units.action.Updating r a.init.others .add pairs
  subtracts : reverse.Updating r a.init.others .sub back
  inputs : reverse.inputs = units.action.inputs
  layout : reverse.layout = units.action.layout
  perm : back.Perm pairs
  order : back = pairs ∨ Faithful (units.action.literals r pairs)
  reads : ∀ pair ∈ pairs,
    pair.2.Within (fun n => n ∉ a.init.others ∧ Compiler.SameName (reverse.compiler r) (units.action.compiler r) n)
      (SameFunction r reverse units.action)

namespace Invertible

variable {config : Config} {r : Registry} {a : Accumulator} {units : CompiledUnits} {reverse : CompiledUnit}
  {pairs back : Entries String Expr}

theorem sameName (h : Invertible config r a units reverse pairs back) {name : String}
    (hn : name ∈ a.action.inputs ∧ name ∉ a.init.others) :
    Compiler.SameName (reverse.compiler r) (units.action.compiler r) name := by
  obtain ⟨hothers, -, hcompile, hreverse⟩ := Accumulator.units_eq_ok h.made
  obtain ⟨hplan, hvalid, -⟩ := CompiledUnit.compile_eq_ok hcompile
  obtain ⟨-, -, -, hinputs, -⟩ := hreverse reverse h.reversible
  have ho : units.action.plan.others = a.init.others := by
    rw [hplan]
    exact hothers a.action (by simp [Accumulator.plans])
  obtain ⟨slot, type, hi, -⟩ := hvalid.input_front (r := r) (hplan ▸ hn.1) (ho ▸ hn.2)
  refine .input ?_ hi
  rw [CompiledUnit.input_eq, hinputs, ← CompiledUnit.input_eq]
  exact hi

theorem updatable (h : Invertible config r a units reverse pairs back) {u : CompiledUnit}
    {listed : Entries String Expr} (hperm : listed.Perm pairs) (ho : u.plan.others = a.init.others)
    (hi : u.inputs = units.action.inputs)
    (hs : u.plan.strict = true → (a.action.strict || reverse.plan.strict) = true) :
    u.Updatable listed := by
  have hkeys : (listed.map Prod.fst).Perm (pairs.map Prod.fst) := hperm.map _
  refine ⟨hkeys.nodup_iff.2 h.distinct, fun x hx => ?_, fun hstrict x hx => ?_, fun pair hpair => ?_⟩
  · rw [ho]
    exact h.targets x (hkeys.mem_iff.1 hx)
  · rw [hi]
    exact h.unwidened (hs hstrict) x (hkeys.mem_iff.1 hx)
  · rw [ho]
    exact (h.within pair (hperm.mem_iff.1 hpair)).mono (fun _ => And.right) fun _ => id

theorem regular (h : Invertible config r a units reverse pairs back) {u : CompiledUnit}
    {listed : Entries String Expr} (hperm : listed.Perm pairs) (hvalid : u.Valid)
    (hi : u.plan.inputs = a.action.inputs) (ho : u.plan.others = a.init.others) : Regular (u.literals r listed) := by
  apply regular_of_proper
  intro v hv
  obtain ⟨pair, hpair, hv⟩ := List.mem_flatMap.1 hv
  refine Compiler.exprLiterals_proper (fun n hn => .inl ?_) (h.within pair (hperm.mem_iff.1 hpair)) v hv
  obtain ⟨slot, type, hi, -⟩ := hvalid.input_front (r := r) (hi ▸ hn.1) (ho ▸ hn.2)
  exact hi ▸ rfl

theorem inverse (h : Invertible config r a units reverse pairs back) :
    Inverse r a units reverse pairs back := by
  obtain ⟨hothers, -, hcompile, hreverse⟩ := Accumulator.units_eq_ok h.made
  obtain ⟨hplan, hvalid, ss, hparses, hprogram⟩ := CompiledUnit.compile_eq_ok hcompile
  obtain ⟨p, hp, hcompile', hinputs, hlayout⟩ := hreverse reverse h.reversible
  obtain ⟨hplan', hvalid', ss', hparses', hprogram'⟩ := CompiledUnit.compile_eq_ok hcompile'
  obtain ⟨ss₁, hparses₁, hadds⟩ := h.adds
  obtain ⟨ss₂, hparses₂, hsubtracts⟩ := h.subtracts
  obtain rfl := hparses.unique hparses₁
  obtain rfl := hparses'.unique (hplan' ▸ hparses₂)
  have ho : units.action.plan.others = a.init.others := by
    rw [hplan]
    exact hothers a.action (by simp [Accumulator.plans])
  have ho' : reverse.plan.others = a.init.others := by
    rw [hplan']
    exact hothers p (by simp [Accumulator.plans, hp])
  have hi' : reverse.plan.inputs = a.action.inputs := by
    rw [← hvalid'.names, hinputs, hvalid.names, hplan]
  have hstrict (hs : units.action.plan.strict = true) : (a.action.strict || reverse.plan.strict) = true := by
    rw [hplan] at hs
    rw [hs, Bool.true_or]
  have hstrict' (hs : reverse.plan.strict = true) : (a.action.strict || reverse.plan.strict) = true := by
    rw [hs, Bool.or_true]
  exact {
    compiled := h.compiled
    reversible := h.reversible
    adds := ⟨hvalid, ho, h.updatable (.refl _) ho rfl hstrict, ⟨ss, hadds, hprogram⟩,
      h.regular (.refl _) hvalid (by rw [hplan]) ho⟩
    subtracts := ⟨hvalid', ho', h.updatable h.perm ho' hinputs hstrict', ⟨ss', hsubtracts, hprogram'⟩,
      h.regular h.perm hvalid' hi' ho'⟩
    inputs := hinputs
    layout := hlayout
    perm := h.perm
    order := h.order
    reads := fun pair hpair => ((h.within pair hpair).and (h.functions pair hpair)).mono
      (fun n hn => ⟨hn.1.2, h.sameName hn.1⟩) fun _ => And.right }

end Invertible

namespace Inverse

variable {r : Registry} {a : Accumulator} {units : CompiledUnits} {reverse : CompiledUnit}
  {pairs back : Entries String Expr}

theorem exprLiterals_eq (h : Inverse r a units reverse pairs back) {pair : String × Expr} (hpair : pair ∈ pairs) :
    (reverse.compiler r).exprLiterals [] pair.2 = (units.action.compiler r).exprLiterals [] pair.2 :=
  Compiler.exprLiterals_congr (fun _ hn => hn.2) (h.reads pair hpair)

theorem tableValue_eq (h : Inverse r a units reverse pairs back) {pair : String × Expr} (hpair : pair ∈ pairs)
    {v : Value} (hv : v ∈ (reverse.compiler r).exprLiterals [] pair.2) :
    tableValue reverse.program.chunk.literals v = tableValue units.action.program.chunk.literals v := by
  have hliterals : reverse.literals r back = units.action.literals r back :=
    congrArg List.flatten (List.map_congr_left fun pair hpair => h.exprLiterals_eq (h.perm.mem_iff.1 hpair))
  rw [h.exprLiterals_eq hpair] at hv
  rw [h.subtracts.table, h.adds.table, hliterals]
  -- in the same order the tables are the same; in another, every literal stands for itself in both
  rcases h.order with rfl | hfaithful
  · rfl
  · have hmem : v ∈ units.action.literals r pairs := List.mem_flatMap.2 ⟨pair, hpair, hv⟩
    have hback : (units.action.literals r back).Perm (units.action.literals r pairs) := h.perm.flatMap_right _
    have hfaithful' : Faithful (units.action.literals r back) := fun v hv w hw =>
      hfaithful v (hback.mem_iff.1 hv) w (hback.mem_iff.1 hw)
    rw [hfaithful.tableValue hmem, hfaithful'.tableValue (hback.mem_iff.2 hmem)]

theorem value_eq (h : Inverse r a units reverse pairs back) {k k' : Context} {front : Front}
    {vars vars' : List Value} (hk : k.Splits units.action front vars) (hk' : k'.Splits reverse front vars')
    {pair : String × Expr} (hpair : pair ∈ pairs) : reverse.value r k' pair.2 = units.action.value r k pair.2 := by
  have hk := hk.of_sameInputs h.inputs h.layout
  refine Compiler.eval_congr (fun n hn => ⟨hn.2, ?_⟩) (fun _ hf => hf) (h.reads pair hpair)
    fun v hv => h.tableValue_eq hpair hv
  exact h.subtracts.valid.sameLoad hk' hk (h.subtracts.others ▸ hn.1)

end Inverse

def CompiledUnit.addend (r : Registry) (u : CompiledUnit) (pairs : Entries String Expr) (k : Context)
    (x : String) : Int :=
  match (pairs.get? x).map (u.value r k) with
  | some (.ok (.int n)) => n.toInt
  | _ => 0

def FoldedWith (r : Registry) (u : CompiledUnit) (pairs : Entries String Expr) (k : Context)
    (n : String → Int) : Prop :=
  ∃ front vars, k.Splits u front vars ∧
    ∀ pair ∈ pairs, ∃ m : Int64, u.value r k pair.2 = .ok (.int m) ∧ m.toInt = n pair.1

theorem addend_eq {r : Registry} {u : CompiledUnit} {pairs : Entries String Expr} {k : Context}
    (hd : (pairs.map Prod.fst).Nodup) (hi : ∀ pair ∈ pairs, ∃ n, u.value r k pair.2 = .ok (.int n)) :
    ∀ pair ∈ pairs, ∃ m : Int64, u.value r k pair.2 = .ok (.int m) ∧ m.toInt = u.addend r pairs k pair.1 := by
  intro pair hpair
  obtain ⟨m, hm⟩ := hi pair hpair
  exact ⟨m, hm, by rw [CompiledUnit.addend, Entries.get?_eq_some_of_mem hd hpair, Option.map_some, hm]⟩

section

variable {r : Registry} {a : Accumulator} {units : CompiledUnits} {reverse : CompiledUnit}
  {pairs back : Entries String Expr} {g g' : Group} {fact : Fact}

theorem accumulate_ok (hu : units.action.Updating r a.init.others .add pairs) (hc : a.compiled = some units)
    {tuple : List Fact} {memory : Memory} {n : String → Int}
    (hn : ∀ k, units.action.context (some fact) tuple memory g.vars = .ok k →
      ∀ pair ∈ pairs, ∃ m : Int64, units.action.value r k pair.2 = .ok (.int m) ∧ m.toInt = n pair.1)
    (hvars : ∀ x ∈ pairs.map Prod.fst, ∃ m, namedValue? a.init.others g.vars x = some (.int m))
    (hcall : a.accumulate g tuple fact memory = (.ok (), g')) :
    ∃ left, g' = { g.remember fact.id left with vars := left.others } ∧
      left.others.length = a.init.others.length ∧ FoldedWith r units.action pairs left n ∧
      Shifted a.init.others (pairs.map Prod.fst) (· + ·) n g.vars left.others := by
  rcases Accumulator.accumulate_cases a g tuple fact memory with
    ⟨e, -, he⟩ | ⟨units', k, hu', hk, ⟨reason, left, -, he⟩ | ⟨v, left, hrun, hr⟩⟩
  · simp [he] at hcall
  · simp [he] at hcall
  obtain rfl : units = units' := Option.some.inj (hc.symm.trans hu')
  obtain rfl : { g.remember fact.id left with vars := left.others } = g' := by simpa [hr] using hcall
  obtain ⟨front, hsplits, -⟩ := hu.valid.context hk
  have hn := hn k hk
  obtain ⟨vars', hsplits', hshift⟩ := hu.run add_exact hsplits hn hvars hrun
  have hothers : left.others = vars' := hsplits'.others
  refine ⟨left, rfl, ?_, ⟨front, vars', hsplits', ?_⟩, ?_⟩
  · rw [hothers, hsplits'.vars, hu.valid.layout_other, hu.others]
  · -- the action has left its front alone, so it would add the same again
    intro pair hpair
    rw [← hu.valid.value_front hsplits hsplits' (hu.updatable.within pair hpair)]
    exact hn pair hpair
  · rw [hothers]
    exact hshift

theorem Inverse.reverseFold_ok (h : Inverse r a units reverse pairs back)
    (hvars : ∀ x ∈ pairs.map Prod.fst, ∃ m, namedValue? a.init.others g.vars x = some (.int m))
    (hcall : a.reverseFold g fact = (.ok (), g')) :
    ∃ k vars', g.snapshot? fact.id = some k ∧ g' = { g.forget fact.id with vars := vars' } ∧
      ∀ n, FoldedWith r units.action pairs k n →
        vars'.length = a.init.others.length ∧
          Shifted a.init.others (pairs.map Prod.fst) (· - ·) n g.vars vars' := by
  have hkeys : ∀ x, x ∈ back.map Prod.fst ↔ x ∈ pairs.map Prod.fst := fun x => (h.perm.map _).mem_iff
  rcases Accumulator.reverseFold_cases a g fact with
    ⟨e, -, he⟩ | ⟨units', reverse', k, hu, hv, hs, ⟨e, -, he⟩ | ⟨k', v, left, hset, hrun, hr⟩⟩
  · simp [he] at hcall
  · simp [he] at hcall
  obtain rfl : units = units' := Option.some.inj (h.compiled.symm.trans hu)
  obtain rfl : reverse = reverse' := Option.some.inj (h.reversible.symm.trans hv)
  obtain rfl : { g.forget fact.id with vars := left.others } = g' := by simpa [hr] using hcall
  refine ⟨k, left.others, hs, rfl, ?_⟩
  rintro n ⟨front, vars, hsplits, hn⟩
  -- the reversal runs on the front of the snapshot and on the variables of now
  have hsplits₁ := (hsplits.setOthers hset).of_sameInputs h.inputs h.layout
  have hback : ∀ pair ∈ back, ∃ m : Int64, reverse.value r k' pair.2 = .ok (.int m) ∧ m.toInt = n pair.1 := by
    intro pair hpair
    have hpair := h.perm.mem_iff.1 hpair
    rw [h.value_eq hsplits hsplits₁ hpair]
    exact hn pair hpair
  obtain ⟨vars', hsplits', hshift⟩ := h.subtracts.run sub_exact hsplits₁ hback
    (fun x hx => hvars x ((hkeys x).1 hx)) hrun
  have hothers : left.others = vars' := hsplits'.others
  rw [hothers]
  refine ⟨?_, ?_, ?_⟩
  · rw [hsplits'.vars, h.subtracts.valid.layout_other, h.subtracts.others]
  · intro x hx
    exact hshift.moved x ((hkeys x).2 hx)
  · intro x hx
    exact hshift.kept x fun hmem => hx ((hkeys x).1 hmem)

end

end FactFold
