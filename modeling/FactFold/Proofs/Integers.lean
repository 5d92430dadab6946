import Mathlib
import FactFold.Proofs.Results
import FactFold.Value.Arithmetic

/-!
An operator on integers gives the exact result or refuses: division by zero, and results beyond 64 bits. The one
result that would fit and is refused all the same is the remainder of the least integer by minus one.
-/

namespace FactFold

def Fits (n : Int) : Prop :=
  Int64.minValue.toInt ≤ n ∧ n ≤ Int64.maxValue.toInt

theorem fits_toInt (n : Int64) : Fits n.toInt :=
  ⟨n.minValue_le_toInt, n.toInt_le⟩

theorem not_fits_iff {n : Int} : ¬ Fits n ↔ int64? n = none := by
  rw [int64?_eq_none_iff, Fits]
  omega

theorem exists_int64? {n : Int} (h : Fits n) : ∃ m, int64? n = some m ∧ m.toInt = n := by
  cases hm : int64? n with
  | none => exact absurd h (not_fits_iff.2 hm)
  | some m => exact ⟨m, rfl, (int64?_eq_some_iff n m).1 hm⟩

theorem minValue_add_one : Int64.minValue.toInt + 1 = -Int64.maxValue.toInt := by
  decide

theorem minValue_neg : Int64.minValue.toInt < 0 := by
  decide

namespace ArithOp

def exact : ArithOp → Int → Int → Int
  | add, a, b => a + b
  | sub, a, b => a - b
  | mul, a, b => a * b
  | div, a, b => a.tdiv b
  | rem, a, b => a.tmod b

def DividesBy (op : ArithOp) (b : Int) : Prop :=
  (op = div ∨ op = rem) ∧ b = 0

/-- The remainder of the least integer by minus one. It is zero, but the quotient does not fit. -/
def LosesRemainder (op : ArithOp) (a b : Int) : Prop :=
  op = rem ∧ a = Int64.minValue.toInt ∧ b = -1

end ArithOp

section

variable {a b : Int}

theorem abs_tmod_lt (hb : b ≠ 0) : |a.tmod b| < |b| := by
  have h := Int.natAbs_tmod a b
  have hlt := Nat.mod_lt a.natAbs (Int.natAbs_pos.2 hb)
  rw [Int.abs_eq_natAbs, Int.abs_eq_natAbs]
  omega

theorem tmod_nonpos (ha : a ≤ 0) (b : Int) : a.tmod b ≤ 0 := by
  have h := Int.tmod_nonneg b (Int.neg_nonneg_of_nonpos ha)
  rw [Int.neg_tmod] at h
  omega

theorem tmod_mul_nonneg (a b : Int) : 0 ≤ a.tmod b * a := by
  rcases le_total 0 a with ha | ha
  · exact mul_nonneg (Int.tmod_nonneg b ha) ha
  · exact mul_nonneg_of_nonpos_of_nonpos (tmod_nonpos ha b) ha

theorem natAbs_tmod_le (a b : Int) : (a.tmod b).natAbs ≤ a.natAbs := by
  rw [Int.natAbs_tmod]
  exact Nat.mod_le _ _

theorem Fits.between (ha : Fits a) (h : 0 ≤ b ∧ b ≤ a ∨ a ≤ b ∧ b ≤ 0) : Fits b := by
  have hmin := minValue_add_one
  have hneg := minValue_neg
  unfold Fits at ha ⊢
  omega

theorem tmod_between (a b : Int) : 0 ≤ a.tmod b ∧ a.tmod b ≤ a ∨ a ≤ a.tmod b ∧ a.tmod b ≤ 0 := by
  have habs := natAbs_tmod_le a b
  rcases le_total 0 a with hsign | hsign
  · have hnonneg := Int.tmod_nonneg b hsign
    omega
  · have hnonpos := tmod_nonpos hsign b
    omega

theorem fits_tmod (ha : Fits a) (b : Int) : Fits (a.tmod b) :=
  ha.between (tmod_between a b)

theorem fits_tdiv_mul (ha : Fits a) (b : Int) : Fits (a.tdiv b * b) := by
  have hsum := Int.tdiv_mul_add_tmod a b
  have hrem := tmod_between a b
  exact ha.between (by omega)

theorem not_fits_neg_minValue : ¬ Fits (-Int64.minValue.toInt) := by
  unfold Fits
  decide

theorem natAbs_tdiv_le (a : Int) (hb : 2 ≤ b.natAbs) : (a.tdiv b).natAbs ≤ a.natAbs / 2 := by
  rw [Int.natAbs_tdiv]
  exact Nat.div_le_div_left hb (by decide)

theorem fits_tdiv_iff (ha : Fits a) : Fits (a.tdiv b) ↔ ¬ (a = Int64.minValue.toInt ∧ b = -1) := by
  constructor
  · rintro h ⟨rfl, rfl⟩
    rw [Int.tdiv_neg, Int.tdiv_one] at h
    exact not_fits_neg_minValue h
  · intro hne
    have hmin := minValue_add_one
    have hneg := minValue_neg
    unfold Fits at ha ⊢
    by_cases hb : 2 ≤ b.natAbs
    · have habs := natAbs_tdiv_le a hb
      omega
    · obtain rfl | rfl | rfl : b = 0 ∨ b = 1 ∨ b = -1 := by omega
      · rw [Int.tdiv_zero]
        omega
      · rw [Int.tdiv_one]
        omega
      · rw [Int.tdiv_neg, Int.tdiv_one]
        omega

end

namespace ArithOp

variable {op : ArithOp} {x y : Int64}

theorem onInts_zero (h : op.DividesBy y.toInt) : op.onInts x y = .error .divisionByZero := by
  obtain ⟨rfl | rfl, hy⟩ := h <;> simp [onInts, hy]

theorem ne_zero_of_divides {b : Int} (hop : op = div ∨ op = rem) (h : ¬ op.DividesBy b) : b ≠ 0 :=
  fun hb => h ⟨hop, hb⟩

theorem onInts_fits {z : Int64} (h : ¬ op.DividesBy y.toInt) (hlost : ¬ op.LosesRemainder x.toInt y.toInt)
    (hz : z.toInt = op.exact x.toInt y.toInt) : op.onInts x y = .ok (.int z) := by
  have hfit : int64? (op.exact x.toInt y.toInt) = some z := (int64?_eq_some_iff _ z).2 hz
  cases op with
  | add | sub | mul =>
    simp only [exact] at hfit
    simp only [onInts, hfit]
  | div =>
    have hy := ne_zero_of_divides (.inl rfl) h
    simp only [exact] at hfit
    simp only [onInts, if_neg hy, hfit]
  | rem =>
    have hy := ne_zero_of_divides (.inr rfl) h
    have hquotient : Fits (x.toInt.tdiv y.toInt) := (fits_tdiv_iff (fits_toInt x)).2 fun hleast => hlost ⟨rfl, hleast⟩
    obtain ⟨q, hq, -⟩ := exists_int64? hquotient
    have hrem : Int64.ofInt (x.toInt.tmod y.toInt) = z := by
      simp only [exact] at hz
      rw [← hz, Int64.ofInt_toInt]
    simp only [onInts, if_neg hy, hq, Option.map_some, hrem]

theorem onInts_beyond (h : ¬ op.DividesBy y.toInt)
    (hbeyond : op.LosesRemainder x.toInt y.toInt ∨ ¬ Fits (op.exact x.toInt y.toInt)) :
    op.onInts x y = .error (.overflow (.arith op)) := by
  cases op with
  | add | sub | mul =>
    have hnone := not_fits_iff.1 (hbeyond.resolve_left fun hlost => nomatch hlost.1)
    simp only [exact] at hnone
    simp only [onInts, hnone]
  | div =>
    have hnone := not_fits_iff.1 (hbeyond.resolve_left fun hlost => nomatch hlost.1)
    simp only [exact] at hnone
    simp only [onInts, if_neg (ne_zero_of_divides (.inl rfl) h), hnone]
  | rem =>
    -- remainders fit, so it is the quotient that does not
    have hlost := hbeyond.resolve_right fun hnot => hnot (fits_tmod (fits_toInt x) _)
    have hquotient : ¬ Fits (x.toInt.tdiv y.toInt) := fun hfits => (fits_tdiv_iff (fits_toInt x)).1 hfits hlost.2
    have hnone := not_fits_iff.1 hquotient
    simp only [onInts, if_neg (ne_zero_of_divides (.inr rfl) h), hnone, Option.map_none]

theorem onInts_cases (op : ArithOp) (x y : Int64) :
    (op.DividesBy y.toInt ∧ op.onInts x y = .error .divisionByZero) ∨
      (¬ op.DividesBy y.toInt ∧ (op.LosesRemainder x.toInt y.toInt ∨ ¬ Fits (op.exact x.toInt y.toInt)) ∧
        op.onInts x y = .error (.overflow (.arith op))) ∨
      (¬ op.DividesBy y.toInt ∧ ¬ op.LosesRemainder x.toInt y.toInt ∧
        ∃ z : Int64, z.toInt = op.exact x.toInt y.toInt ∧ op.onInts x y = .ok (.int z)) := by
  by_cases hzero : op.DividesBy y.toInt
  · exact .inl ⟨hzero, onInts_zero hzero⟩
  by_cases hbeyond : op.LosesRemainder x.toInt y.toInt ∨ ¬ Fits (op.exact x.toInt y.toInt)
  · exact .inr (.inl ⟨hzero, hbeyond, onInts_beyond hzero hbeyond⟩)
  · obtain ⟨hlost, hfits⟩ := not_or.1 hbeyond
    obtain ⟨z, -, hz⟩ := exists_int64? (not_not.1 hfits)
    exact .inr (.inr ⟨hzero, hlost, z, hz, onInts_fits hzero hlost hz⟩)

end ArithOp

namespace Value

variable {x y q r : Int64}

theorem arith_ints (op : ArithOp) (x y : Int64) : arith op (int x) (int y) = op.onInts x y := by
  cases op <;> rfl

theorem ok_of_arith {op : ArithOp} {v : Value} (h : arith op (int x) (int y) = .ok v) :
    ¬ op.DividesBy y.toInt ∧ ¬ op.LosesRemainder x.toInt y.toInt ∧
      ∃ z : Int64, v = int z ∧ z.toInt = op.exact x.toInt y.toInt := by
  rw [arith_ints] at h
  rcases op.onInts_cases x y with ⟨-, heq⟩ | ⟨-, -, heq⟩ | ⟨hzero, hlost, z, hz, heq⟩
  · rw [heq] at h
    cases h
  · rw [heq] at h
    cases h
  · rw [heq] at h
    exact ⟨hzero, hlost, z, (Except.ok.inj h).symm, hz⟩

theorem quotient_remainder (hq : arith .div (int x) (int y) = .ok (int q))
    (hr : arith .rem (int x) (int y) = .ok (int r)) :
    x.toInt = q.toInt * y.toInt + r.toInt ∧ |r.toInt| < |y.toInt| ∧ 0 ≤ r.toInt * x.toInt ∧
      ∃ p, arith .mul (int q) (int y) = .ok p ∧ arith .add p (int r) = .ok (int x) := by
  obtain ⟨hzero, -, q', hq', hquotient⟩ := ok_of_arith hq
  obtain ⟨-, -, r', hr', hrem⟩ := ok_of_arith hr
  cases hq'
  cases hr'
  simp only [ArithOp.exact] at hquotient hrem
  have hsum : x.toInt = q.toInt * y.toInt + r.toInt := by
    rw [hquotient, hrem, Int.tdiv_mul_add_tmod]
  have hy := ArithOp.ne_zero_of_divides (.inl rfl) hzero
  have hproduct : Fits (q.toInt * y.toInt) := hquotient ▸ fits_tdiv_mul (fits_toInt x) y.toInt
  obtain ⟨p, -, hp⟩ := exists_int64? hproduct
  refine ⟨hsum, hrem ▸ abs_tmod_lt hy, hrem ▸ tmod_mul_nonneg _ _, int p, ?_, ?_⟩
  · rw [arith_ints]
    exact ArithOp.onInts_fits (fun h => by simpa using h.1) (fun h => nomatch h.1) hp
  · rw [arith_ints]
    exact ArithOp.onInts_fits (fun h => by simpa using h.1) (fun h => nomatch h.1) (by rw [hsum, ArithOp.exact, hp])

theorem neg_int (x : Int64) :
    (¬ Fits (-x.toInt) ∧ unary .neg (int x) = .error (.overflow (.unary .neg))) ∨
      ∃ z : Int64, z.toInt = -x.toInt ∧ unary .neg (int x) = .ok (int z) := by
  by_cases hfits : Fits (-x.toInt)
  · obtain ⟨z, hsome, hz⟩ := exists_int64? hfits
    exact .inr ⟨z, hz, by simp only [unary, hsome]⟩
  · have hnone := not_fits_iff.1 hfits
    exact .inl ⟨hfits, by simp only [unary, hnone]⟩

theorem neg_int_iff (x : Int64) :
    (unary .neg (int x) = .error (.overflow (.unary .neg)) ↔ ¬ Fits (-x.toInt)) ∧
      ∀ v, unary .neg (int x) = .ok v ↔ ∃ z : Int64, v = int z ∧ z.toInt = -x.toInt := by
  rcases neg_int x with ⟨hfits, heq⟩ | ⟨z, hz, heq⟩
  · refine ⟨by simp [heq, hfits], fun v => ?_⟩
    simp only [heq, reduceCtorEq, false_iff, not_exists, not_and]
    rintro z - hz
    exact hfits (hz ▸ fits_toInt z)
  · refine ⟨by simp [heq, ← hz, fits_toInt z], fun v => ?_⟩
    rw [heq, Except.ok.injEq]
    constructor
    · rintro rfl
      exact ⟨z, rfl, hz⟩
    · rintro ⟨z', rfl, hz'⟩
      rw [Int64.toInt_inj.1 (hz.trans hz'.symm)]

theorem integers_exact_or_refused (x y : Int64) :
    (∀ op : ArithOp,
      (arith op (int x) (int y) = .error .divisionByZero ↔ op.DividesBy y.toInt) ∧
      (arith op (int x) (int y) = .error (.overflow (.arith op)) ↔
        ¬ op.DividesBy y.toInt ∧ (op.LosesRemainder x.toInt y.toInt ∨ ¬ Fits (op.exact x.toInt y.toInt))) ∧
      ∀ v, arith op (int x) (int y) = .ok v ↔
        ¬ op.DividesBy y.toInt ∧ ¬ op.LosesRemainder x.toInt y.toInt ∧
          ∃ z : Int64, v = int z ∧ z.toInt = op.exact x.toInt y.toInt) ∧
    (unary .neg (int x) = .error (.overflow (.unary .neg)) ↔ ¬ Fits (-x.toInt)) ∧
    (∀ v, unary .neg (int x) = .ok v ↔ ∃ z : Int64, v = int z ∧ z.toInt = -x.toInt) ∧
    ∀ q r : Int64, arith .div (int x) (int y) = .ok (int q) → arith .rem (int x) (int y) = .ok (int r) →
      x.toInt = q.toInt * y.toInt + r.toInt ∧ |r.toInt| < |y.toInt| ∧ 0 ≤ r.toInt * x.toInt ∧
        ∃ p, arith .mul (int q) (int y) = .ok p ∧ arith .add p (int r) = .ok (int x) := by
  refine ⟨fun op => ?_, (neg_int_iff x).1, (neg_int_iff x).2, fun q r hq hr => quotient_remainder hq hr⟩
  refine ⟨?_, ?_, fun v => ⟨ok_of_arith, ?_⟩⟩
  · rw [arith_ints]
    rcases op.onInts_cases x y with ⟨hzero, heq⟩ | ⟨hzero, -, heq⟩ | ⟨hzero, -, z, -, heq⟩ <;> simp [heq, hzero]
  · rw [arith_ints]
    rcases op.onInts_cases x y with ⟨hzero, heq⟩ | ⟨hzero, hbeyond, heq⟩ | ⟨hzero, hlost, z, hz, heq⟩
    · simp [heq, hzero]
    · simp [heq, hzero, hbeyond]
    · have hfits : Fits (op.exact x.toInt y.toInt) := hz ▸ fits_toInt z
      simp [heq, hlost, hfits]
  · rintro ⟨hzero, hlost, z, rfl, hz⟩
    rw [arith_ints]
    exact ArithOp.onInts_fits hzero hlost hz

theorem integers_exact_or_refused_seven :
    arith .div (int (-7)) (int 2) = .ok (int (-3)) ∧ arith .rem (int (-7)) (int 2) = .ok (int (-1)) ∧
      (-7 : Int64).toInt = (-3 : Int64).toInt * (2 : Int64).toInt + (-1 : Int64).toInt := by
  have hq : arith .div (int (-7)) (int 2) = .ok (int (-3)) := rfl
  have hr : arith .rem (int (-7)) (int 2) = .ok (int (-1)) := rfl
  exact ⟨hq, hr, ((integers_exact_or_refused (-7) 2).2.2.2 _ _ hq hr).1⟩

theorem least_remainder_refused :
    arith .rem (int Int64.minValue) (int (-1)) = .error (.overflow (.arith .rem)) ∧
      ArithOp.rem.exact Int64.minValue.toInt (-1) = 0 ∧ Fits 0 := by
  refine ⟨rfl, by decide, ?_⟩
  unfold Fits
  decide

end Value

end FactFold
