import FactFold.Proofs.Scenario.Recomputation

namespace FactFold

namespace Accumulator

variable {a : Accumulator} {units : CompiledUnits} {g g₁ g₂ : Group} {tuple : List Fact} {memory : Memory}

theorem accumulate_vars_eq {fact fact' : Fact} (hu : a.compiled = some units)
    (h₁ : a.accumulate g tuple fact memory = (.ok (), g₁)) (h₂ : a.accumulate g tuple fact' memory = (.ok (), g₂))
    (hv : fact'.value = fact.value) : g₁.vars = g₂.vars := by
  have h₂ := accumulate_varsAfter hu h₂
  rw [hv, accumulate_varsAfter hu h₁] at h₂
  exact Except.ok.inj h₂

theorem answer_congr (h : g₁.vars = g₂.vars) : a.answer g₁ tuple memory = a.answer g₂ tuple memory := by
  simp only [answer, h]

end Accumulator

namespace Replay

variable {r r₁ r₂ r₃ : Replay} {key : String} {v : Value} {units : CompiledUnits} {g g₁ g₂ g₃ : Group}

theorem Did.reversed_vars (hreversible : r.accumulator.isReversible = true)
    (hu : r.accumulator.compiled = some units) (hupdate : r.Did (.update key v) g₁)
    (hretract : r.Did (.retract key) g₂) (hinsert : (r.after (.retract key) g₂).Did (.insert key v) g₃) :
    g₁.vars = g₃.vars := by
  cases hupdate with
  | anew hirreversible => simp [hreversible] at hirreversible
  | update _ hold hundo hfold =>
    cases hretract with
    | anew hirreversible => simp [hreversible] at hirreversible
    | retract _ hold' hundo' =>
      -- both undo the same fold, so both fold the new payload on the same group
      rw [hold] at hold'
      cases hold'
      rw [hundo] at hundo'
      cases hundo'
      cases hinsert with
      | anew _ hundoes => cases hundoes
      | insert _ hfold' => exact Accumulator.accumulate_vars_eq hu hfold hfold' rfl

def IsLast (r : Replay) (key : String) : Prop :=
  ∃ front old, r.payloads = front ++ [(key, old)]

theorem IsLast.payloads_eq (h : r.IsLast key) (hkeys : (r.live.map Prod.fst).Nodup) :
    Action.payloadsAfter r.payloads (.update key v) =
      Action.payloadsAfter (Action.payloadsAfter r.payloads (.retract key)) (.insert key v) := by
  obtain ⟨front, old, hlast⟩ := h
  have hkeys : (r.payloads.map Prod.fst).Nodup := by
    rw [payloads, List.map_map]
    exact hkeys
  have hother : ∀ entry ∈ front, entry.1 ≠ key := by
    intro entry hentry he
    rw [hlast, List.map_append, List.nodup_append] at hkeys
    exact hkeys.2.2 _ (List.mem_map_of_mem hentry) key (by simp) he
  have hkept : front.filter (·.1 ≠ key) = front := List.filter_eq_self.2 fun entry hentry => by
    simpa using hother entry hentry
  have hsame : (front.map fun entry => if entry.1 = key then (key, v) else entry) = front := by
    rw [List.map_congr_left fun entry hentry => if_neg (hother entry hentry), List.map_id']
  simp only [Action.payloadsAfter, hlast, List.map_append, List.filter_append, hkept, hsame]
  simp

end Replay

namespace Scenario

variable {s : Scenario} {registry : Registry} {r₀ r r₁ r₂ r₃ : Replay} {actions : List Action} {key : String}
  {v : Value} {i j k : Nat} {o₁ o₂ o₃ : StepOutcome}

/-- An update leaves what a retraction and an insertion leave, if there is a reversal or the fact came last.
Without a reversal, the update leaves what a fold from scratch comes to with the new payload in the place of the
old one, and the other two steps what it comes to with the new payload behind all others. -/
theorem update_against_retract_insert (hstart : s.start registry = .ok r₀) (h : r₀.Reaches actions r)
    (hupdate : r.step i (.update key v) = (.ok o₁, r₁)) (hretract : r.step j (.retract key) = (.ok o₂, r₂))
    (hinsert : r₂.step k (.insert key v) = (.ok o₃, r₃)) :
    (s.clause.reverse.isSome = true ∨ r.IsLast key → r₁.group.vars = r₃.group.vars ∧ r₁.answer = r₃.answer) ∧
      (s.clause.reverse = none → ∃ units, s.accumulator.units s.config registry = .ok units ∧
        units.scratch r.tuple r.memory
          ((r.payloads.map fun entry => if entry.1 = key then (key, v) else entry).map Prod.snd) =
            .ok r₁.group.vars ∧
        units.scratch r.tuple r.memory ((r.payloads.filter (·.1 ≠ key)).map Prod.snd ++ [v]) =
          .ok r₃.group.vars) := by
  obtain ⟨units, hs⟩ := start_ok hstart
  obtain ⟨haccumulator, htuple, hmemory⟩ := h.same
  have hu : r.accumulator.compiled = some units := haccumulator ▸ hs.compiled
  have hkeys := (h.payloads hs.live).1
  obtain ⟨g₁, hdid₁, rfl, -⟩ := Replay.step_ok hupdate
  obtain ⟨g₂, hdid₂, rfl, -⟩ := Replay.step_ok hretract
  obtain ⟨g₃, hdid₃, rfl, -⟩ := Replay.step_ok hinsert
  have hpayloads₁ := (hdid₁.payloads hkeys).2
  obtain ⟨hkeys₂, hpayloads₂⟩ := hdid₂.payloads hkeys
  have hpayloads₃ := (hdid₃.payloads hkeys₂).2
  rw [hpayloads₂] at hpayloads₃
  have hscratch (hreverse : s.clause.reverse = none) :
      (r.after (.update key v) g₁).Recomputed units ∧
        ((r.after (.retract key) g₂).after (.insert key v) g₃).Recomputed units :=
    ⟨hs.recomputed hreverse (h.step hupdate), hs.recomputed hreverse ((h.step hretract).step hinsert)⟩
  have hvars : s.clause.reverse.isSome = true ∨ r.IsLast key → g₁.vars = g₃.vars := by
    intro hcase
    cases hreverse : s.clause.reverse with
    | some source =>
      have hreversible : r.accumulator.isReversible = true := by rw [haccumulator, hs.isReversible, hreverse]; rfl
      exact hdid₁.reversed_vars hreversible hu hdid₂ hdid₃
    | none =>
      have hlast : r.IsLast key := hcase.resolve_left (by simp [hreverse])
      obtain ⟨h₁, h₃⟩ := hscratch hreverse
      rw [Replay.Recomputed, hpayloads₁, hlast.payloads_eq hkeys, ← hpayloads₃] at h₁
      exact Except.ok.inj (h₁.symm.trans h₃)
  refine ⟨fun hcase => ⟨hvars hcase, ?_⟩, fun hreverse => ?_⟩
  · exact congrArg (Except.mapError ScenarioError.fold) (Accumulator.answer_congr (hvars hcase))
  · obtain ⟨h₁, h₃⟩ := hscratch hreverse
    rw [Replay.Recomputed, hpayloads₁] at h₁
    rw [Replay.Recomputed, hpayloads₃, Action.payloadsAfter, List.map_append] at h₃
    exact ⟨units, hs.made, h₁, h₃⟩

end Scenario

theorem update_against_retract_insert_digits :
    (digitsOfTwo.step 2 (.update "b" (.int 4))).2.group.vars =
        ((digitsOfTwo.step 2 (.retract "b")).2.step 3 (.insert "b" (.int 4))).2.group.vars ∧
      digitsUnits.scratch [] {} [.int 1, .int 4] = .ok [.int 14] := by
  have h := Scenario.update_against_retract_insert digitsScenario_start digitsOfTwo_reached
    (rfl : digitsOfTwo.step 2 (.update "b" (.int 4)) = (.ok _, _))
    (rfl : digitsOfTwo.step 2 (.retract "b") = (.ok _, _))
    (rfl : (digitsOfTwo.step 2 (.retract "b")).2.step 3 (.insert "b" (.int 4)) = (.ok _, _))
  obtain ⟨units, hunits, hplace, -⟩ := h.2 rfl
  obtain rfl : digitsUnits = units := Except.ok.inj (digits_units.symm.trans hunits)
  exact ⟨(h.1 (.inr ⟨[("a", .int 1)], .int 2, rfl⟩)).1, hplace⟩

theorem update_keeps_place :
    digitsScenario.start sumRegistry = .ok (freshReplay digits) ∧
      (freshReplay digits).Reaches [.insert "a" (.int 1), .insert "b" (.int 2)] digitsOfTwo ∧
      ∃ o₁ r₁ o₂ r₂ o₃ r₃, digitsOfTwo.step 2 (.update "a" (.int 3)) = (.ok o₁, r₁) ∧
        digitsOfTwo.step 2 (.retract "a") = (.ok o₂, r₂) ∧ r₂.step 3 (.insert "a" (.int 3)) = (.ok o₃, r₃) ∧
        r₁.group.vars = [.int 32] ∧ r₁.answer.toOption = some (.int 32) ∧
        r₃.group.vars = [.int 23] ∧ r₃.answer.toOption = some (.int 23) :=
  ⟨digitsScenario_start, digitsOfTwo_reached, _, _, _, _, _, _, rfl, rfl, rfl, rfl, rfl, rfl, rfl⟩

end FactFold
