import FactFold.Proofs.Accumulator.Calls

namespace FactFold

namespace Group

structure AgreeBut (fact : UInt64) (g g' : Group) : Prop where
  identifiers : g'.identifiers = g.identifiers
  vars : g'.vars = g.vars
  others : ∀ other, other ≠ fact → g'.snapshot? other = g.snapshot? other

theorem AgreeBut.refl (fact : UInt64) (g : Group) : AgreeBut fact g g :=
  ⟨rfl, rfl, fun _ _ => rfl⟩

theorem agreeBut_remember (g : Group) (fact : UInt64) (context : Context) :
    AgreeBut fact g (g.remember fact context) :=
  ⟨rfl, rfl, fun _ h => snapshot?_remember_of_ne h⟩

theorem agreeBut_forget (g : Group) (fact : UInt64) : AgreeBut fact g (g.forget fact) :=
  ⟨rfl, rfl, fun _ h => snapshot?_forget_of_ne h⟩

end Group

namespace Accumulator

/-- A fold that fails leaves the group as it was but for the snapshot of the fact; that snapshot changes only
if the action of a reversible accumulator fails, and then it is the context that the action came to. -/
theorem accumulate_failure {a : Accumulator} {g : Group} (hg : Reachable a g) {tuple : List Fact} {fact : Fact}
    {memory : Memory} {e : FoldError} {g' : Group} (h : a.accumulate g tuple fact memory = (.error e, g')) :
    g.AgreeBut fact.id g' ∧
      ((a.isReversible = false ∨ ∀ reason, e ≠ .run reason) → g' = g) ∧
      ∀ reason, a.isReversible = true → e = .run reason →
        ∃ units context left, a.compiled = some units ∧
          units.action.context (some fact) tuple memory g.vars = .ok context ∧
          units.action.run context = ⟨.error reason, left⟩ ∧
          g' = g.remember fact.id left ∧ g'.snapshot? fact.id = some left := by
  rcases accumulate_cases a g tuple fact memory with
    ⟨e', he, hr⟩ | ⟨units, context, hu, hc, ⟨reason, left, hrun, hr⟩ | ⟨v, left, _, hr⟩⟩
  · obtain ⟨rfl, rfl⟩ : e' = e ∧ g = g' := by simpa [hr] using h
    exact ⟨.refl fact.id g, fun _ => rfl, fun reason _ hreason => absurd hreason (he reason)⟩
  · obtain ⟨rfl, rfl⟩ : .run reason = e ∧ g.remember fact.id left = g' := by simpa [hr] using h
    refine ⟨g.agreeBut_remember fact.id left, ?_, ?_⟩
    · rintro (hrev | hrun)
      · -- an accumulator that is not reversible has nowhere to keep the context
        have hnone : g.snapshots = none := by simpa [hrev] using hg.sound.kept
        exact Group.remember_of_none hnone
      · exact absurd rfl (hrun reason)
    · rintro reason' hrev hreason
      cases hreason
      exact ⟨units, context, left, hu, hc, hrun, rfl, Group.snapshot?_remember (hg.sound.kept.trans hrev)⟩
  · simp [hr] at h

theorem accumulate_failure_sum :
    (sum.accumulate sumStart [] ⟨1, .bool true⟩ {}).2.vars = sumStart.vars ∧
      ∃ left, (sum.accumulate sumStart [] ⟨1, .bool true⟩ {}).2.snapshot? 1 = some left := by
  have h : sum.accumulate sumStart [] ⟨1, .bool true⟩ {} =
      (.error (.run (.mismatch (.arith .add) .number "boolean")), _) := rfl
  obtain ⟨agree, -, kept⟩ := accumulate_failure sumStart_reachable h
  obtain ⟨_, _, left, _, _, _, _, hs⟩ := kept _ rfl rfl
  exact ⟨agree.vars, left, hs⟩

theorem failed_fold_adds_snapshot :
    (sumClause.accumulator {} "sum").compile {} sumRegistry = .ok sum ∧ Reachable sum sumStart ∧
      (sum.accumulate sumStart [] ⟨1, .bool true⟩ {}).1 =
        .error (.run (.mismatch (.arith .add) .number "boolean")) ∧
      sumStart.snapshotCount = 0 ∧ (sum.accumulate sumStart [] ⟨1, .bool true⟩ {}).2.snapshotCount = 1 :=
  ⟨sum_compile, sumStart_reachable, rfl, rfl, rfl⟩

/-- A reversal that fails leaves the group as it was but for the snapshot of the fact; a refusal leaves it
altogether, and any other failure spends the snapshot, so that the reversal is refused from then on. -/
theorem reverseFold_failure {a : Accumulator} {g : Group} (hg : Reachable a g) {fact : Fact} {e : FoldError}
    {g' : Group} (h : a.reverseFold g fact = (.error e, g')) :
    g.AgreeBut fact.id g' ∧ (e.isRefusal = true → g' = g) ∧
      (e.isRefusal = false → g' = g.forget fact.id ∧ g'.snapshot? fact.id = none ∧
        a.reverseFold g' fact = (.error (.noSnapshot fact.id), g')) := by
  rcases reverseFold_cases a g fact with
    ⟨e', he, hr⟩ | ⟨units, reverse, context, hu, hv, hs, ⟨e', he, hr⟩ | ⟨_, v, left, _, _, hr⟩⟩
  · obtain ⟨rfl, rfl⟩ : e' = e ∧ g = g' := by simpa [hr] using h
    exact ⟨.refl fact.id g, fun _ => rfl, fun hno => absurd (he.symm.trans hno) (by decide)⟩
  · obtain ⟨rfl, rfl⟩ : e' = e ∧ g.forget fact.id = g' := by simpa [hr] using h
    have hgone : (g.forget fact.id).snapshot? fact.id = none := hg.sound.snapshot?_forget
    refine ⟨g.agreeBut_forget fact.id, ?_, ?_⟩
    · intro hyes
      exact absurd (he.symm.trans hyes) (by decide)
    · intro _
      refine ⟨rfl, hgone, ?_⟩
      rw [reverseFold, hu]
      simp only [hv, hgone]
  · simp [hr] at h

def sumOfText : Group :=
  (sum.accumulate sumStart [] ⟨1, .text "a"⟩ {}).2

theorem sumOfText_reachable : Reachable sum sumOfText :=
  sumStart_reachable.accumulate [] ⟨1, .text "a"⟩ {}

theorem reverseFold_failure_sum :
    (sum.reverseFold sumOfText ⟨1, .null⟩).2.vars = sumOfText.vars ∧
      (sum.reverseFold (sum.reverseFold sumOfText ⟨1, .null⟩).2 ⟨1, .null⟩).1 = .error (.noSnapshot 1) := by
  have h : sum.reverseFold sumOfText ⟨1, .null⟩ =
      (.error (.run (.mismatch (.arith .sub) .number "text")), _) := rfl
  obtain ⟨agree, -, spent⟩ := reverseFold_failure sumOfText_reachable h
  exact ⟨agree.vars, congrArg Prod.fst (spent rfl).2.2⟩

theorem failed_reversal_spends_snapshot :
    (sumClause.accumulator {} "sum").compile {} sumRegistry = .ok sum ∧ Reachable sum sumOfText ∧
      (sum.reverseFold sumOfText ⟨1, .null⟩).1 = .error (.run (.mismatch (.arith .sub) .number "text")) ∧
      sumOfText.snapshotCount = 1 ∧ (sum.reverseFold sumOfText ⟨1, .null⟩).2.snapshotCount = 0 :=
  ⟨sum_compile, sumOfText_reachable, rfl, rfl, rfl⟩

end Accumulator

end FactFold
