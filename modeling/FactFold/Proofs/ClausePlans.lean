import FactFold.Proofs.Accumulator.Units
import FactFold.Proofs.Clause
import FactFold.Proofs.Validation

namespace FactFold

theorem mem_bindings {first : Nat} {names : List BoundName} {b : Binding} (h : b ∈ bindings first names) :
    ∃ i, first ≤ i ∧ i < first + names.length ∧ b.id = UInt32.ofNat i := by
  obtain ⟨⟨bound, i⟩, hmem, rfl⟩ := List.mem_map.1 h
  obtain ⟨hfirst, hlt, -⟩ := List.mem_zipIdx hmem
  exact ⟨i, hfirst, hlt, rfl⟩

theorem bindings_apart {first second : Nat} {names others : List BoundName} (h : first + names.length ≤ second)
    (hlimit : second + others.length ≤ UInt32.size) :
    ∀ b ∈ bindings first names, ∀ b' ∈ bindings second others, b.id ≠ b'.id := by
  intro b hb b' hb' heq
  obtain ⟨i, -, hi, hid⟩ := mem_bindings hb
  obtain ⟨j, hj, hj', hid'⟩ := mem_bindings hb'
  rw [hid, hid'] at heq
  have hij : i = j := by
    have := congrArg UInt32.toNat heq
    rwa [UInt32.toNat_ofNat_of_lt' (by omega), UInt32.toNat_ofNat_of_lt' (by omega)] at this
  omega

theorem bindings_identifiers (first : Nat) (names : List BoundName) :
    (bindings first names).map (·.identifier) = names.map (·.identifier) := by
  rw [bindings, List.map_map]
  change (names.zipIdx first).map ((·.identifier) ∘ Prod.fst) = _
  rw [← List.map_map, List.zipIdx_map_fst]

theorem repeated?_eq_some {seen names : List String} {name : String} (h : repeated? seen names = some name) :
    name ∈ seen ∧ name ∈ names ∨ List.Duplicate name names := by
  induction names generalizing seen with
  | nil => cases h
  | cons n names ih =>
    rw [repeated?] at h
    split at h
    · next hn =>
      cases h
      exact .inl ⟨by simpa using hn, List.mem_cons_self⟩
    · rcases ih h with ⟨hseen, hmem⟩ | hdup
      · rcases List.mem_cons.1 hseen with rfl | hseen
        · exact .inr (.cons_mem hmem)
        · exact .inl ⟨hseen, List.mem_cons_of_mem n hmem⟩
      · exact .inr (hdup.duplicate_cons n)

namespace Plan

structure Ordered (p : Plan) : Prop where
  typed : p.inputs.length = p.inputTypes.length
  apart : ∀ b ∈ p.previous, ∀ b' ∈ p.locals, b.id ≠ b'.id
  named : p.inputs = p.named ∨ ∃ fact, p.inputs = fact :: p.named

namespace Ordered

variable {p : Plan} {e : PlanError}

theorem validate_iff (h : p.Ordered) :
    (∃ l, p.validate = .ok l) ↔ p.inputs.Nodup ∧ p.inputs.length ≤ UInt16.size := by
  constructor
  · rintro ⟨l, hl⟩
    obtain ⟨-, honce, -, hlayout⟩ := Plan.validate_iff.1 hl
    exact ⟨honce, (layout_eq_ok hlayout).1⟩
  · rintro ⟨honce, hindexed⟩
    obtain ⟨l, hlayout⟩ := exists_layout hindexed h.named
    exact ⟨l, Plan.validate_iff.2 ⟨h.typed, honce, h.apart, hlayout⟩⟩

theorem layout_error (h : p.Ordered) (he : p.layout = .error e) :
    e = .tooManyInputs p.inputs.length ∧ UInt16.size < p.inputs.length := by
  by_cases hindexed : p.inputs.length ≤ UInt16.size
  · obtain ⟨l, hl⟩ := exists_layout hindexed h.named
    rw [hl] at he
    cases he
  · have hmany : UInt16.size < p.inputs.length := Nat.lt_of_not_le hindexed
    unfold layout at he
    dsimp only at he
    rw [if_pos hmany] at he
    cases he
    exact ⟨rfl, hmany⟩

theorem validate_error (h : p.Ordered) (he : p.validate = .error e) :
    (∃ name, e = .duplicateInput name ∧ List.Duplicate name p.inputs) ∨
      e = .tooManyInputs p.inputs.length ∧ UInt16.size < p.inputs.length := by
  unfold validate at he
  rw [if_neg (not_not.2 h.typed)] at he
  split at he
  · next name hname =>
    cases he
    exact .inl ⟨name, rfl, (repeated?_eq_some hname).resolve_left (by simp)⟩
  · rw [find?_shared.2 h.apart] at he
    exact .inr (h.layout_error he)

end Ordered

end Plan

theorem Plan.compile_error {p : Plan} {config : Config} {r : Registry} {e : CompileError}
    (h : p.compile config r = .error e) : e.cause ≠ .reverseInputs ∧ e.cause ≠ .otherVariables := by
  rcases Plan.compile_error_cases h with ⟨_, he⟩ | ⟨_, he⟩ | he | ⟨_, he⟩ | ⟨_, _, -, he⟩ <;>
    exact he ▸ ⟨nofun, nofun⟩

namespace Clause

section

variable (c : Clause) (config : Config) (name source : String) (sees : Bool)

theorem named_plan : (c.plan config name source sees).named =
    c.engine ++ c.globals.map Prod.fst ++ c.previous.map (·.identifier) ++
      (if sees then c.locals.map (·.identifier) else []) ++ c.vars.map Prod.fst := by
  cases sees <;> simp [Plan.named, plan, bindings_identifiers]

theorem inputs_plan : (c.plan config name source sees).inputs =
    (if sees then [c.factIdentifier] else []) ++ (c.plan config name source sees).named := by
  rw [named_plan]
  cases sees <;> simp [plan, inputs, Function.comp_def]

theorem ordered_plan (h : c.previous.length + c.locals.length < UInt32.size) :
    (c.plan config name source sees).Ordered where
  typed := by simp [plan]
  apart := by
    cases sees with
    | false => simp [plan]
    | true => exact bindings_apart (by omega) (by omega)
  named := by
    rw [inputs_plan]
    cases sees with
    | false => exact .inl rfl
    | true => exact .inr ⟨c.factIdentifier, rfl⟩

theorem hasFact_plan {l : SlotLayout} (h : (c.plan config name source sees).layout = .ok l) :
    l.hasFact = sees := by
  have hcovers := Plan.layout_covers h
  rw [Bool.eq_iff_iff, hcovers.hasFact, inputs_plan]
  cases sees with
  | false => simp
  | true => simp

theorem others_plan : (c.plan config name source sees).others = c.vars.map Prod.fst :=
  rfl

end

variable {c : Clause} {config settings : Config} {r : Registry} {name : String} {sees : Bool} {p : Plan}
  {e : CompileError}

theorem plan_of_mem (h : p ∈ (c.accumulator config name).plans) :
    ∃ name source sees, p = c.plan config name source sees := by
  rcases Accumulator.mem_plans.1 h with rfl | rfl | hp | rfl
  · exact ⟨_, _, _, rfl⟩
  · exact ⟨_, _, _, rfl⟩
  · obtain ⟨source, -, rfl⟩ := Option.map_eq_some_iff.1 hp
    exact ⟨_, _, _, rfl⟩
  · exact ⟨_, _, _, rfl⟩

theorem sameInputs_plan {name' source source' : String} {u u' : CompiledUnit}
    (h : (c.plan config name source sees).compile settings r = .ok u)
    (h' : (c.plan config name' source' sees).compile settings r = .ok u') : Accumulator.sameInputs u' u = true := by
  obtain ⟨-, hlayout, ⟨imports, hi, hinputs⟩, -⟩ := CompiledUnit.compile_steps h
  obtain ⟨-, hlayout', ⟨imports', hi', hinputs'⟩, -⟩ := CompiledUnit.compile_steps h'
  obtain rfl : imports = imports' := Except.ok.inj (hi.symm.trans hi')
  have hlayouts : u'.layout = u.layout := Except.ok.inj (hlayout'.symm.trans hlayout)
  have hentries : u'.inputs = u.inputs := Except.ok.inj (hinputs'.symm.trans hinputs)
  rw [Accumulator.sameInputs, hlayouts, hentries, beq_self_eq_true, beq_self_eq_true, Bool.and_self]

theorem compile_error (h : (c.accumulator config name).compile settings r = .error e) :
    ∃ p ∈ (c.accumulator config name).plans, p.compile settings r = .error e := by
  rcases Accumulator.units_eq_error (map_eq_error.1 h) with ⟨p, hp, hothers⟩ | hfails | hreverse
  · obtain ⟨_, _, _, rfl⟩ := plan_of_mem hp
    exact absurd rfl hothers
  · exact hfails
  · obtain ⟨p, action, reverse, hp, haction, hcompile, hsame⟩ := hreverse
    obtain ⟨source, -, rfl⟩ := Option.map_eq_some_iff.1 hp
    rw [sameInputs_plan haction hcompile] at hsame
    cases hsame

theorem plans_lay_out (c : Clause) (config : Config) (name : String)
    (h : c.previous.length + c.locals.length < UInt32.size) :
    let a := c.accumulator config name
    (∀ p ∈ a.plans,
      ((∃ l, p.validate = .ok l) ↔ p.inputs.Nodup ∧ p.inputs.length ≤ UInt16.size) ∧
        ∀ e, p.validate = .error e →
          (∃ input, e = .duplicateInput input ∧ List.Duplicate input p.inputs) ∨
            e = .tooManyInputs p.inputs.length ∧ UInt16.size < p.inputs.length) ∧
      (∀ p ∈ [a.init, a.result], p.locals = [] ∧ ∀ l, p.layout = .ok l → l.hasFact = false) ∧
      (∀ p ∈ a.action :: a.reverse.toList,
        p.inputs = a.action.inputs ∧ p.inputTypes = a.action.inputTypes ∧ p.layout = a.action.layout ∧
          p.validate = a.action.validate ∧ ∀ l, p.layout = .ok l → l.hasFact = true) ∧
      (∀ p ∈ a.plans, p.others = c.vars.map Prod.fst) ∧
      ∀ settings r e, a.compile settings r = .error e →
        (∃ p ∈ a.plans, p.compile settings r = .error e) ∧ e.cause ≠ .reverseInputs ∧ e.cause ≠ .otherVariables := by
  intro a
  refine ⟨fun p hp => ?_, fun p hp => ?_, fun p hp => ?_, fun p hp => ?_, fun settings r e he => ?_⟩
  · obtain ⟨name, source, sees, rfl⟩ := plan_of_mem hp
    have hordered := c.ordered_plan config name source sees h
    exact ⟨hordered.validate_iff, fun e he => hordered.validate_error he⟩
  · obtain rfl | rfl : p = a.init ∨ p = a.result := by simpa using hp
    · exact ⟨rfl, fun l hl => hasFact_plan c config _ _ false hl⟩
    · exact ⟨rfl, fun l hl => hasFact_plan c config _ _ false hl⟩
  · obtain rfl | hp : p = a.action ∨ a.reverse = some p := by simpa using hp
    · exact ⟨rfl, rfl, rfl, rfl, fun l hl => hasFact_plan c config _ _ true hl⟩
    · obtain ⟨source, -, rfl⟩ := Option.map_eq_some_iff.1 hp
      exact ⟨rfl, rfl, rfl, rfl, fun l hl => hasFact_plan c config _ _ true hl⟩
  · obtain ⟨name, source, sees, rfl⟩ := plan_of_mem hp
    exact c.others_plan config name source sees
  · obtain ⟨p, hp, hfails⟩ := compile_error he
    exact ⟨⟨p, hp, hfails⟩, p.compile_error hfails⟩

def orderClause : Clause where
  vars := [("total", "Object")]
  globals := [("bonus", "Object")]
  engine := ["engine"]
  previous := [{ identifier := "$customer", field := some "name" }]
  locals := [{ identifier := "$amount", field := some "amount" }]
  init := "total = 0;"
  action := "total += $amount * bonus;"
  reverse := some "total -= $amount * bonus;"
  result := "total"

theorem plans_lay_out_order :
    orderClause.previous.length + orderClause.locals.length < UInt32.size ∧
      (∀ p ∈ (orderClause.accumulator {} "order").plans, ∃ l, p.validate = .ok l) ∧
      (orderClause.accumulator {} "order").init.validate = .ok ⟨0, 1, 1, 1, 0, 1⟩ ∧
      (orderClause.accumulator {} "order").action.validate = .ok ⟨1, 1, 1, 1, 1, 1⟩ := by
  have hlimit : orderClause.previous.length + orderClause.locals.length < UInt32.size := by decide
  have honce : ∀ p ∈ (orderClause.accumulator {} "order").plans,
      p.inputs.Nodup ∧ p.inputs.length ≤ UInt16.size := by decide
  obtain ⟨hplans, -⟩ := plans_lay_out orderClause {} "order" hlimit
  exact ⟨hlimit, fun p hp => (hplans p hp).1.2 (honce p hp), by decide, by decide⟩

end Clause

end FactFold
