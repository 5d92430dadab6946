import FactFold.Proofs.Script.Grammar.Basic
import FactFold.Proofs.Script.Grammar.Cursors

namespace FactFold.Script.Grammar

def precedence (level : Nat) : Nat :=
  [10, 20, 30, 35, 40, 50].getD level 60

theorem precedence_lt : ∀ k ≤ levels.length, ∀ j < k, precedence j < precedence k := by
  decide

theorem precedence_le {j k : Nat} (h : j ≤ k) : precedence j ≤ precedence k := by
  apply monotone_nat_of_le_succ (fun level => ?_) h
  by_cases hl : level < levels.length
  · exact (precedence_lt (level + 1) hl level (Nat.lt_succ_self level)).le
  · have hlast (j : Nat) (hj : 6 ≤ j) : precedence j = 60 := List.getD_eq_default _ _ hj
    rw [hlast level (Nat.not_lt.mp hl), hlast (level + 1) (Nat.le_succ_of_le (Nat.not_lt.mp hl))]

theorem le_of_precedence_le {j k : Nat} (hj : j ≤ levels.length) (h : precedence j ≤ precedence k) :
    j ≤ k := by
  by_contra hk
  have := precedence_lt j hj k (by omega)
  omega

variable {level : Nat} {f : Fixed} {op : BinaryOp}

theorem Joins.lt (h : Joins level f op) : level < levels.length := by
  by_contra hl
  rw [Joins, List.getD_eq_default _ _ (Nat.not_lt.mp hl)] at h
  cases h

theorem Joins.binary? (h : Joins level f op) : f.binary? = some (precedence level, op) := by
  have table : ∀ k < levels.length, ∀ entry ∈ levels.getD k [],
      entry.1.binary? = some (precedence k, entry.2) := by decide
  exact table level h.lt (f, op) h

theorem joins_of_binary? {t : Token} {p : Nat} (h : t.binary? = some (p, op)) :
    ∃ f level, t = .fixed f ∧ Joins level f op ∧ p = precedence level := by
  cases t with
  | fixed f =>
    refine ⟨f, levels.findIdx (·.contains (f, op)), rfl, ?_⟩
    cases f <;> cases h <;> decide
  | _ => cases h

def Below (bound : Nat) (ts : List Token) : Prop :=
  ∀ p op, ts.head?.bind Token.binary? = some (p, op) → p < bound

theorem Below.mono {bound bound' : Nat} {ts : List Token} (h : Below bound ts) (hb : bound ≤ bound') :
    Below bound' ts :=
  fun p op hp => (h p op hp).trans_le hb

theorem below_last (ts : List Token) : Below (precedence levels.length) ts := by
  intro p op hp
  obtain ⟨t, -, ht⟩ := Option.bind_eq_some_iff.mp hp
  obtain ⟨f, level, -, hj, rfl⟩ := joins_of_binary? ht
  exact precedence_lt _ le_rfl level hj.lt

theorem Level.lower {j k : Nat} {ts : List Token} {e : Expr} (h : Level k ts e) (hj : j ≤ k) :
    Level j ts e := by
  induction hj using Nat.decreasingInduction with
  | self => exact h
  | of_succ k hk ih => exact .higher ih

end FactFold.Script.Grammar
