import FactFold.Accumulator.Basic
import FactFold.Proofs.Unit

namespace FactFold.Accumulator

variable {a : Accumulator} {config : Config} {r : Registry} {units : CompiledUnits} {e : CompileError}

theorem mem_plans {p : Plan} : p ∈ a.plans ↔ p = a.init ∨ p = a.action ∨ a.reverse = some p ∨ p = a.result := by
  simp [plans, Option.mem_toList]

theorem units_steps (h : a.units config r = .ok units) :
    (∀ p ∈ a.plans, p.others = a.init.others) ∧ a.init.compile config r = .ok units.init ∧
      a.action.compile config r = .ok units.action ∧
      a.reverse.mapM (compileReverse config r units.action) = .ok units.reverse ∧
      a.result.compile config r = .ok units.result := by
  unfold Accumulator.units at h
  split at h
  · cases h
  · next hshared =>
    obtain ⟨init, hinit, h⟩ := bind_eq_ok.1 h
    obtain ⟨action, haction, h⟩ := bind_eq_ok.1 h
    obtain ⟨reverse, hreverse, h⟩ := bind_eq_ok.1 h
    obtain ⟨result, hresult, h⟩ := bind_eq_ok.1 h
    cases h
    exact ⟨fun p hp => by simpa using List.find?_eq_none.1 hshared p hp, hinit, haction, hreverse, hresult⟩

theorem sameInputs_eq {u v : CompiledUnit} (h : sameInputs u v = true) :
    u.inputs = v.inputs ∧ u.layout = v.layout := by
  obtain ⟨hi, hl⟩ := Bool.and_eq_true_iff.1 h
  exact ⟨eq_of_beq hi, eq_of_beq hl⟩

theorem units_eq_ok (h : a.units config r = .ok units) :
    (∀ p ∈ a.plans, p.others = a.init.others) ∧ a.init.compile config r = .ok units.init ∧
      a.action.compile config r = .ok units.action ∧
      ∀ reverse, units.reverse = some reverse → ∃ p, a.reverse = some p ∧ p.compile config r = .ok reverse ∧
        reverse.inputs = units.action.inputs ∧ reverse.layout = units.action.layout := by
  obtain ⟨hothers, hinit, haction, hreverse, -⟩ := units_steps h
  refine ⟨hothers, hinit, haction, fun reverse hr => ?_⟩
  rw [hr] at hreverse
  cases hp : a.reverse with
  | none =>
    rw [hp] at hreverse
    cases hreverse
  | some p =>
    rw [hp, Option.mapM_some] at hreverse
    obtain ⟨_, hc, hsome⟩ := map_eq_ok.1 hreverse
    cases hsome
    obtain ⟨_, hcompile, hsame⟩ := bind_eq_ok.1 hc
    split at hsame
    · next hs =>
      cases hsame
      exact ⟨p, rfl, hcompile, sameInputs_eq hs⟩
    · cases hsame

theorem units_reverse {p : Plan} (h : a.units config r = .ok units) (hp : a.reverse = some p) :
    ∃ reverse, units.reverse = some reverse := by
  obtain ⟨-, -, -, hreverse, -⟩ := units_steps h
  rw [hp, Option.mapM_some] at hreverse
  obtain ⟨reverse, -, hsome⟩ := map_eq_ok.1 hreverse
  exact ⟨reverse, hsome.symm⟩

theorem units_irreversible (h : a.units config r = .ok units) :
    ({ a with reverse := none } : Accumulator).units config r = .ok { units with reverse := none } := by
  obtain ⟨hothers, hinit, haction, -, hresult⟩ := units_steps h
  have hshared : ({ a with reverse := none } : Accumulator).plans.find? (·.others != a.init.others) = none := by
    rw [List.find?_eq_none]
    intro p hp
    have hp : p ∈ a.plans := by
      simp only [plans, Option.toList_none, List.append_nil, List.mem_append] at hp ⊢
      exact hp.imp_left .inl
    simp [hothers p hp]
  simp only [Accumulator.units, hshared, hinit, haction, hresult, ok_bind]
  rfl

theorem compileReverse_eq_error {action : CompiledUnit} {p : Plan}
    (h : compileReverse config r action p = .error e) :
    p.compile config r = .error e ∨
      ∃ reverse, p.compile config r = .ok reverse ∧ sameInputs reverse action = false := by
  rcases bind_eq_error.1 h with h | ⟨reverse, hreverse, h⟩
  · exact .inl h
  · split at h
    · cases h
    · next hsame => exact .inr ⟨reverse, hreverse, by simpa using hsame⟩

theorem units_eq_error (h : a.units config r = .error e) :
    (∃ p ∈ a.plans, p.others ≠ a.init.others) ∨ (∃ p ∈ a.plans, p.compile config r = .error e) ∨
      ∃ p action reverse, a.reverse = some p ∧ a.action.compile config r = .ok action ∧
        p.compile config r = .ok reverse ∧ sameInputs reverse action = false := by
  unfold units at h
  split at h
  · next p hp =>
    exact .inl ⟨p, List.mem_of_find?_eq_some hp, by simpa using List.find?_some hp⟩
  rcases bind_eq_error.1 h with hinit | ⟨init, -, h⟩
  · exact .inr (.inl ⟨a.init, mem_plans.2 (.inl rfl), hinit⟩)
  rcases bind_eq_error.1 h with haction | ⟨action, haction, h⟩
  · exact .inr (.inl ⟨a.action, mem_plans.2 (.inr (.inl rfl)), haction⟩)
  rcases bind_eq_error.1 h with hreverse | ⟨reverse, -, h⟩
  · cases hp : a.reverse with
    | none =>
      rw [hp] at hreverse
      cases hreverse
    | some p =>
      rw [hp, Option.mapM_some] at hreverse
      rcases compileReverse_eq_error (map_eq_error.1 hreverse) with hcompile | ⟨reverse, hcompile, hsame⟩
      · exact .inr (.inl ⟨p, mem_plans.2 (.inr (.inr (.inl hp))), hcompile⟩)
      · exact .inr (.inr ⟨p, action, reverse, rfl, haction, hcompile, hsame⟩)
  rcases bind_eq_error.1 h with hresult | ⟨result, -, h⟩
  · exact .inr (.inl ⟨a.result, mem_plans.2 (.inr (.inr (.inr rfl))), hresult⟩)
  · cases h

end FactFold.Accumulator
