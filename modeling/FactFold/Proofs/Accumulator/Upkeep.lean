import FactFold.Proofs.Accumulator.Calls
import FactFold.Proofs.Accumulator.Units
import FactFold.Proofs.Validation

namespace FactFold

theorem forall₂_mem_right {α β : Type} {R : α → β → Prop} {xs : List α} {ys : List β} (h : List.Forall₂ R xs ys) :
    ∀ y ∈ ys, ∃ x ∈ xs, R x y := by
  induction h with
  | nil => simp
  | cons hxy _ ih =>
    intro y hy
    rcases List.mem_cons.1 hy with rfl | hy
    · exact ⟨_, List.mem_cons_self, hxy⟩
    · obtain ⟨x, hx, hxy⟩ := ih y hy
      exact ⟨x, List.mem_cons_of_mem _ hx, hxy⟩

namespace Binding

def Swapped (old : UInt32) (binding b b' : Binding) : Prop :=
  b' = if b.id = old then binding else b

variable {old : UInt32} {binding b b' : Binding}

theorem Swapped.id_ne (h : Swapped old binding b b') (hid : binding.id ≠ old) : b'.id ≠ old := by
  unfold Swapped at h
  split at h
  · rwa [h]
  · rwa [h]

theorem Swapped.identifier (h : Swapped old binding b b') (hb : b.id = old → b.identifier = binding.identifier) :
    b'.identifier = b.identifier := by
  unfold Swapped at h
  split at h
  · next hold => rw [h, hb hold]
  · rw [h]

theorem Swapped.apart {c c' : Binding} (h : Swapped old binding b b') (h' : Swapped old binding c c')
    (hbc : b.id ≠ c.id) (hb : b.id = binding.id → b.id = old) (hc : c.id = binding.id → c.id = old) :
    b'.id ≠ c'.id := by
  unfold Swapped at h h'
  split at h <;> split at h'
  · next hold hold' => exact absurd (hold.trans hold'.symm) hbc
  · next hold hold' =>
    rw [h, h']
    exact fun heq => hold' (hc heq.symm)
  · next hold hold' =>
    rw [h, h']
    exact fun heq => hold (hb heq)
  · rwa [h, h']

end Binding

section

variable {old : UInt32} {binding : Binding} {bs bs' : List Binding}

theorem swapped_map (old : UInt32) (binding : Binding) (bs : List Binding) :
    List.Forall₂ (Binding.Swapped old binding) bs (bs.map fun b => if b.id = old then binding else b) := by
  induction bs with
  | nil => exact .nil
  | cons b bs ih => exact .cons rfl ih

theorem swapped_identifiers (h : List.Forall₂ (Binding.Swapped old binding) bs bs')
    (hb : ∀ b ∈ bs, b.id = old → b.identifier = binding.identifier) :
    bs'.map (·.identifier) = bs.map (·.identifier) := by
  induction h with
  | nil => rfl
  | cons hswapped _ ih =>
    obtain ⟨hfirst, hrest⟩ := List.forall_mem_cons.1 hb
    rw [List.map_cons, List.map_cons, hswapped.identifier hfirst, ih hrest]

end

namespace Plan

structure Replaced (old : UInt32) (binding : Binding) (p p' : Plan) : Prop where
  previous : List.Forall₂ (Binding.Swapped old binding) p.previous p'.previous
  locals : List.Forall₂ (Binding.Swapped old binding) p.locals p'.locals
  rest : p' = { p with previous := p'.previous, locals := p'.locals }

def bindings (p : Plan) : List Binding :=
  p.previous ++ p.locals

variable {p p' : Plan} {l : SlotLayout} {old : UInt32} {binding : Binding}

theorem replaceBinding_replaced (p : Plan) (old : UInt32) (binding : Binding) :
    p.Replaced old binding (p.replaceBinding old binding).1 :=
  ⟨swapped_map old binding p.previous, swapped_map old binding p.locals, rfl⟩

theorem replaceBinding_count (p : Plan) (old : UInt32) (binding : Binding) :
    (p.replaceBinding old binding).2 = p.bindings.countP (·.id = old) :=
  rfl

theorem replaceBinding_of_count (h : p.bindings.countP (·.id = old) = 0) :
    (p.replaceBinding old binding).1 = p := by
  have hsame {bs : List Binding} (hbs : ∀ b ∈ bs, b ∈ p.bindings) :
      (bs.map fun b => if b.id = old then binding else b) = bs := by
    refine (List.map_congr_left fun b hb => ?_).trans (List.map_id' bs)
    exact if_neg (by simpa using List.countP_eq_zero.1 h b (hbs b hb))
  have hprevious := hsame fun b (hb : b ∈ p.previous) => List.mem_append_left _ hb
  have hlocals := hsame fun b (hb : b ∈ p.locals) => List.mem_append_right _ hb
  simp only [replaceBinding, hprevious, hlocals]

namespace Replaced

theorem count_eq_zero (h : p.Replaced old binding p') (hid : binding.id ≠ old) :
    p'.bindings.countP (·.id = old) = 0 := by
  rw [List.countP_eq_zero]
  intro b hb
  rcases List.mem_append.1 hb with hb | hb
  · obtain ⟨c, -, hswapped⟩ := forall₂_mem_right h.previous b hb
    simpa using hswapped.id_ne hid
  · obtain ⟨c, -, hswapped⟩ := forall₂_mem_right h.locals b hb
    simpa using hswapped.id_ne hid

theorem layout_eq (h : p.Replaced old binding p')
    (hb : ∀ b ∈ p.bindings, b.id = old → b.identifier = binding.identifier) : p'.layout = p.layout := by
  have hprevious := swapped_identifiers h.previous fun b hmem => hb b (List.mem_append_left _ hmem)
  have hlocals := swapped_identifiers h.locals fun b hmem => hb b (List.mem_append_right _ hmem)
  have hnamed : p'.named = p.named := by
    rw [named, named, hprevious, hlocals, h.rest]
  rw [layout, layout, hnamed, ← h.previous.length_eq, ← h.locals.length_eq, h.rest]

theorem validate (h : p.Replaced old binding p') (hp : p.validate = .ok l)
    (hb : ∀ b ∈ p.bindings, b.id = old → b.identifier = binding.identifier)
    (hid : ∀ b ∈ p.bindings, b.id = binding.id → b.id = old) : p'.validate = .ok l := by
  obtain ⟨htyped, honce, hapart, hlayout⟩ := validate_iff.1 hp
  have hinputs : p'.inputs = p.inputs ∧ p'.inputTypes = p.inputTypes := by
    rw [h.rest]
    exact ⟨rfl, rfl⟩
  refine validate_iff.2 ⟨by rw [hinputs.1, hinputs.2, htyped], hinputs.1 ▸ honce, ?_, (h.layout_eq hb).trans hlayout⟩
  intro b' hb' c' hc'
  obtain ⟨b, hmem, hswapped⟩ := forall₂_mem_right h.previous b' hb'
  obtain ⟨c, hmem', hswapped'⟩ := forall₂_mem_right h.locals c' hc'
  exact hswapped.apart hswapped' (hapart b hmem c hmem') (hid b (List.mem_append_left _ hmem))
    (hid c (List.mem_append_right _ hmem'))

end Replaced

end Plan

namespace Accumulator

def bindings (a : Accumulator) : List Binding :=
  a.plans.flatMap Plan.bindings

structure Replaced (old : UInt32) (binding : Binding) (a a' : Accumulator) : Prop where
  init : a.init.Replaced old binding a'.init
  action : a.action.Replaced old binding a'.action
  reverse : Option.Rel (Plan.Replaced old binding) a.reverse a'.reverse
  result : a.result.Replaced old binding a'.result

section

variable {a a' : Accumulator} {old : UInt32} {binding : Binding}

theorem replaceBinding_replaced (a : Accumulator) (old : UInt32) (binding : Binding) :
    a.Replaced old binding (a.replaceBinding old binding).1 where
  init := a.init.replaceBinding_replaced old binding
  action := a.action.replaceBinding_replaced old binding
  reverse := by
    unfold replaceBinding
    cases a.reverse with
    | none => exact .none
    | some p => exact .some (p.replaceBinding_replaced old binding)
  result := a.result.replaceBinding_replaced old binding

theorem replaceBinding_count (a : Accumulator) (old : UInt32) (binding : Binding) :
    (a.replaceBinding old binding).2 = a.bindings.countP (·.id = old) := by
  obtain ⟨init, action, reverse, result, compiled⟩ := a
  cases reverse <;> simp [replaceBinding, Plan.replaceBinding_count, bindings, plans, Nat.add_assoc]

theorem replaceBinding_of_count (h : a.bindings.countP (·.id = old) = 0) :
    a.replaceBinding old binding = (a, 0) := by
  have hplan : ∀ p ∈ a.plans, p.replaceBinding old binding = (p, 0) := by
    intro p hp
    have hp : p.bindings.countP (·.id = old) = 0 := by
      rw [List.countP_eq_zero] at h ⊢
      exact fun b hb => h b (List.mem_flatMap.2 ⟨p, hp, hb⟩)
    exact Prod.ext (Plan.replaceBinding_of_count hp) hp
  obtain ⟨init, action, reverse, result, compiled⟩ := a
  cases reverse with
  | none =>
    simp only [plans, Option.toList_none, List.append_nil, List.cons_append, List.nil_append,
      List.forall_mem_cons] at hplan
    simp [replaceBinding, hplan]
  | some p =>
    simp only [plans, Option.toList_some, List.cons_append, List.nil_append, List.forall_mem_cons] at hplan
    simp [replaceBinding, hplan]

theorem replaceBinding_compiled (h : a.bindings.countP (·.id = old) ≠ 0) :
    (a.replaceBinding old binding).1.compiled = none := by
  rw [← a.replaceBinding_count old binding] at h
  exact if_neg h

theorem Replaced.plans (h : a.Replaced old binding a') :
    List.Forall₂ (Plan.Replaced old binding) a.plans a'.plans := by
  obtain ⟨init, action, reverse, result, compiled⟩ := a
  obtain ⟨init', action', reverse', result', compiled'⟩ := a'
  obtain ⟨hinit, haction, hreverse, hresult⟩ := h
  cases hreverse with
  | none => exact .cons hinit (.cons haction (.cons hresult .nil))
  | some hp => exact .cons hinit (.cons haction (.cons hp (.cons hresult .nil)))

theorem Replaced.count_eq_zero (h : a.Replaced old binding a') (hid : binding.id ≠ old) :
    a'.bindings.countP (·.id = old) = 0 := by
  rw [List.countP_eq_zero]
  intro b hb
  obtain ⟨p', hp', hb⟩ := List.mem_flatMap.1 hb
  obtain ⟨p, -, hreplaced⟩ := forall₂_mem_right h.plans p' hp'
  exact List.countP_eq_zero.1 (hreplaced.count_eq_zero hid) b hb

end

end Accumulator

inductive Upkeep where
  | compile (config : Config) (r : Registry)
  | replace (old : UInt32) (binding : Binding)
  | clone

structure CompiledUnits.BelongTo (units : CompiledUnits) (a : Accumulator) : Prop where
  init : units.init.plan = a.init
  action : units.action.plan = a.action
  reverse : units.reverse.map (·.plan) = a.reverse
  result : units.result.plan = a.result
  others : ∀ p ∈ a.plans, p.others = a.init.others

namespace Accumulator

def upkeep (a : Accumulator) : Upkeep → Accumulator
  | .compile config r =>
    match a.compile config r with
    | .ok a' => a'
    | .error _ => a
  | .replace old binding => (a.replaceBinding old binding).1
  | .clone => a.uncompiled

def course (a : Accumulator) (acts : List Upkeep) : Accumulator :=
  acts.foldl upkeep a

def Current (a : Accumulator) : Prop :=
  ∀ units, a.compiled = some units → ∃ config r, a.units config r = .ok units

variable {a a' : Accumulator} {config : Config} {r : Registry} {units : CompiledUnits}

theorem Current.compile (h : a.Current) (hc : a.compile config r = .ok a') : a'.Current := by
  unfold Accumulator.compile at hc
  split at hc
  · cases hc
    exact h
  · obtain ⟨units, hunits, rfl⟩ := map_eq_ok.1 hc
    intro units' hcompiled
    cases hcompiled
    exact ⟨config, r, hunits⟩

theorem Current.replaceBinding (h : a.Current) (old : UInt32) (binding : Binding) :
    (a.replaceBinding old binding).1.Current := by
  by_cases hcount : a.bindings.countP (·.id = old) = 0
  · rwa [replaceBinding_of_count hcount]
  · intro units hunits
    rw [replaceBinding_compiled hcount] at hunits
    cases hunits

theorem Current.upkeep (h : a.Current) (act : Upkeep) : (a.upkeep act).Current := by
  cases act with
  | compile config r =>
    unfold Accumulator.upkeep
    dsimp only
    split
    · next a' hc => exact h.compile hc
    · exact h
  | replace old binding => exact h.replaceBinding old binding
  | clone =>
    intro units hunits
    cases hunits

theorem Current.course (h : a.Current) (acts : List Upkeep) : (a.course acts).Current := by
  induction acts generalizing a with
  | nil => exact h
  | cons act acts ih => exact ih (h.upkeep act)

theorem units_belongTo (h : a.units config r = .ok units) : units.BelongTo a := by
  obtain ⟨hothers, hinit, haction, -, hresult⟩ := units_steps h
  refine ⟨(CompiledUnit.compile_steps hinit).1, (CompiledUnit.compile_steps haction).1, ?_,
    (CompiledUnit.compile_steps hresult).1, hothers⟩
  obtain ⟨-, -, -, hreverse⟩ := units_eq_ok h
  cases hr : units.reverse with
  | some reverse =>
    obtain ⟨p, hp, hcompile, -⟩ := hreverse reverse hr
    rw [hp, Option.map_some, (CompiledUnit.compile_steps hcompile).1]
  | none =>
    cases hp : a.reverse with
    | none => rfl
    | some p =>
      obtain ⟨reverse, hsome⟩ := units_reverse h hp
      rw [hr] at hsome
      cases hsome

theorem units_never_stale :
    (∀ (a : Accumulator) acts units, a.compiled = none → (a.course acts).compiled = some units →
      (∃ config r, (a.course acts).units config r = .ok units) ∧ units.BelongTo (a.course acts)) ∧
      (∀ (a a' : Accumulator) old binding n, a.replaceBinding old binding = (a', n) →
        a.Replaced old binding a' ∧ n = a.bindings.countP (·.id = old) ∧ (n = 0 → a' = a) ∧
          (n ≠ 0 → a'.compiled = none) ∧ (binding.id ≠ old → a'.replaceBinding old binding = (a', 0))) ∧
      ∀ (p : Plan) l old binding, p.validate = .ok l →
        (∀ b ∈ p.bindings, b.id = old → b.identifier = binding.identifier) →
          (∀ b ∈ p.bindings, b.id = binding.id → b.id = old) →
            (p.replaceBinding old binding).1.validate = .ok l := by
  refine ⟨fun a acts units hnew hunits => ?_, fun a a' old binding n h => ?_,
    fun p l old binding hp hb hid => (p.replaceBinding_replaced old binding).validate hp hb hid⟩
  · have hcurrent : a.Current := by
      intro units hunits
      rw [hnew] at hunits
      cases hunits
    obtain ⟨config, r, hmade⟩ := hcurrent.course acts units hunits
    exact ⟨⟨config, r, hmade⟩, units_belongTo hmade⟩
  · have hreplaced := a.replaceBinding_replaced old binding
    have hcount := a.replaceBinding_count old binding
    have hdropped : a.bindings.countP (·.id = old) ≠ 0 → (a.replaceBinding old binding).1.compiled = none :=
      replaceBinding_compiled
    have hsame : a.bindings.countP (·.id = old) = 0 → a.replaceBinding old binding = (a, 0) :=
      replaceBinding_of_count
    rw [← hcount, h] at hdropped hsame
    rw [h] at hreplaced hcount
    exact ⟨hreplaced, hcount, fun hn => (Prod.mk.inj (hsame hn)).1, hdropped,
      fun hid => replaceBinding_of_count (hreplaced.count_eq_zero hid)⟩

def amountBinding : Binding :=
  ⟨7, "$value", 0, .field "amount"⟩

theorem units_never_stale_sum :
    sumUnits.BelongTo
        ((sumClause.accumulator {} "sum").course [.clone, .compile {} sumRegistry, .replace 3 amountBinding]) ∧
      (sum.replaceBinding 0 amountBinding).1.compiled = none ∧
      ((sum.replaceBinding 0 amountBinding).1.replaceBinding 0 amountBinding).2 = 0 ∧
      sum.action.validate = .ok ⟨1, 0, 0, 0, 1, 1⟩ ∧
      (sum.action.replaceBinding 0 amountBinding).1.validate = .ok ⟨1, 0, 0, 0, 1, 1⟩ := by
  have hcourse : (sumClause.accumulator {} "sum").course
      [.clone, .compile {} sumRegistry, .replace 3 amountBinding] = sum := by
    have hcompile : (sumClause.accumulator {} "sum").upkeep (.compile {} sumRegistry) = sum := by
      rw [upkeep, sum_compile]
    exact congrArg (upkeep · (.replace 3 amountBinding)) hcompile
  have hcompiled : ((sumClause.accumulator {} "sum").course
      [.clone, .compile {} sumRegistry, .replace 3 amountBinding]).compiled = some sumUnits := by rw [hcourse]; rfl
  have hvalid : sum.action.validate = .ok ⟨1, 0, 0, 0, 1, 1⟩ := by decide
  obtain ⟨hkept, hreplace, hstays⟩ := units_never_stale
  obtain ⟨-, -, -, hdropped, hagain⟩ := hreplace sum _ 0 amountBinding 2 rfl
  exact ⟨(hkept _ _ _ rfl hcompiled).2, hdropped (by decide), congrArg Prod.snd (hagain (by decide)), hvalid,
    hstays sum.action _ 0 amountBinding hvalid (by decide) (by decide)⟩

end Accumulator

end FactFold
