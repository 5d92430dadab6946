import FactFold.Proofs.Binary64.Packing

namespace FactFold.Binary64

open Float.Model

theorem mantissa_shiftRight (em : UnpackedFloat.ExtendedMantissa) (n : Nat) :
    (em >>> n).mantissa = em.mantissa / 2 ^ n := by
  change (n.repeat UnpackedFloat.ExtendedMantissa.shiftRightOne em).mantissa = _
  induction n with
  | zero => simp [Nat.repeat]
  | succ n ih =>
    rw [Nat.repeat, UnpackedFloat.ExtendedMantissa.shiftRightOne, ih, Nat.div_div_eq_div_mul, Nat.pow_succ]

def exactly (k : Nat) : UnpackedFloat.ExtendedMantissa :=
  ⟨k, false, false⟩

theorem shiftRight_exactly {k n : Nat} (h : 2 ^ n ∣ k) : exactly k >>> n = exactly (k / 2 ^ n) := by
  change n.repeat UnpackedFloat.ExtendedMantissa.shiftRightOne _ = _
  induction n with
  | zero => simp [Nat.repeat, exactly]
  | succ n ih =>
    obtain ⟨a, rfl⟩ := h
    have hdvd : 2 ^ n ∣ 2 ^ (n + 1) * a := ⟨2 * a, by ring⟩
    have hdiv : 2 ^ (n + 1) * a / 2 ^ n = 2 * a := by
      rw [pow_succ, mul_assoc, Nat.mul_div_cancel_left _ (by positivity)]
    have hdiv' : 2 ^ (n + 1) * a / 2 ^ (n + 1) = a := Nat.mul_div_cancel_left _ (by positivity)
    rw [Nat.repeat, ih hdvd, UnpackedFloat.ExtendedMantissa.shiftRightOne, hdiv, hdiv']
    simp [exactly]

theorem roundedMantissa_cases (em : UnpackedFloat.ExtendedMantissa) :
    em.roundedMantissa = em.mantissa ∨ em.roundedMantissa = em.mantissa + 1 := by
  unfold UnpackedFloat.ExtendedMantissa.roundedMantissa
  generalize em.accuracy = accuracy
  unfold UnpackedFloat.Accuracy.roundToNearestEven
  split <;> omega

theorem targetExponent_eq (k : Nat) (e : Int) :
    Format.binary64.targetExponent (totalExponent k e) = max (k.log2 + e - 52) (-1074) := by
  change max ((k.log2 : Int) + 1 + e - 53) (-1074) = _
  omega

theorem shiftToTargetExponent_eq {k : Nat} {e : Int} (hk : 52 ≤ k.log2) (hleast : -1022 ≤ k.log2 + e) :
    UnpackedFloat.shiftToTargetExponent Format.binary64 k e .exact =
      (exactly k >>> (k.log2 - 52), e + ((k.log2 - 52 : Nat) : Int)) := by
  have hshift : (Format.binary64.targetExponent (totalExponent k e) - e).toNat = k.log2 - 52 := by
    rw [targetExponent_eq]
    omega
  unfold UnpackedFloat.shiftToTargetExponent UnpackedFloat.shiftToExponent
  dsimp only
  rw [hshift]
  rfl

theorem log2_eq_52 {m : Nat} (h : 2 ^ 52 ≤ m) (h' : m < 2 ^ 53) : m.log2 = 52 :=
  (Nat.log2_eq_iff (by omega)).2 ⟨h, h'⟩

theorem div_bounds {k : Nat} (hk : 52 ≤ k.log2) :
    2 ^ 52 ≤ k / 2 ^ (k.log2 - 52) ∧ k / 2 ^ (k.log2 - 52) < 2 ^ 53 := by
  have hne : k ≠ 0 := by
    rintro rfl
    simp at hk
  obtain ⟨hlow, hhigh⟩ := (Nat.log2_eq_iff hne).1 rfl
  have hpow : 2 ^ k.log2 = 2 ^ 52 * 2 ^ (k.log2 - 52) := by
    rw [← pow_add, Nat.add_sub_cancel' hk]
  rw [pow_succ, hpow] at hhigh
  rw [hpow] at hlow
  constructor
  · exact (Nat.le_div_iff_mul_le (by positivity)).2 hlow
  · apply (Nat.div_lt_iff_lt_mul (by positivity)).2
    calc k < 2 ^ 52 * 2 ^ (k.log2 - 52) * 2 := hhigh
      _ = 2 ^ 53 * 2 ^ (k.log2 - 52) := by ring

/-- The float `m * 2 ^ e'` is one of the two around `k * 2 ^ e`, and that number itself where no bits are lost. -/
structure Rounded (k : Nat) (e : Int) (m : Nat) (e' : Int) : Prop where
  low : 2 ^ 52 ≤ m
  high : m < 2 ^ 53
  exponent : e' = e + ((k.log2 - 52 : Nat) : Int) ∨ m = 2 ^ 52 ∧ e' = e + ((k.log2 - 52 : Nat) : Int) + 1
  near : |(m : ℚ) * 2 ^ e' - k * 2 ^ e| ≤ 2 ^ (e + ((k.log2 - 52 : Nat) : Int))
  exact : 2 ^ (k.log2 - 52) ∣ k → k = m * 2 ^ (k.log2 - 52) ∧ e' = e + ((k.log2 - 52 : Nat) : Int)

theorem near_of_quotient {k r n : Nat} (e : Int) (h : r = k / 2 ^ n ∨ r = k / 2 ^ n + 1) :
    |(r : ℚ) * 2 ^ (e + n) - k * 2 ^ e| ≤ 2 ^ (e + n) := by
  have hfloor : k / 2 ^ n * 2 ^ n ≤ k := Nat.div_mul_le_self k _
  have hceil : k ≤ (k / 2 ^ n + 1) * 2 ^ n := (Nat.lt_mul_of_div_lt (Nat.lt_succ_self _) (by positivity)).le
  have hlow : (k : ℚ) ≤ r * 2 ^ n + 2 ^ n := by
    have : k ≤ r * 2 ^ n + 2 ^ n := by rcases h with rfl | rfl <;> linarith
    exact_mod_cast this
  have hhigh : (r : ℚ) * 2 ^ n ≤ k + 2 ^ n := by
    have : r * 2 ^ n ≤ k + 2 ^ n := by rcases h with rfl | rfl <;> linarith
    exact_mod_cast this
  have hpos : (0 : ℚ) < 2 ^ e := zpow_pos (by norm_num) e
  rw [zpow_add₀ (by norm_num), zpow_natCast, abs_le]
  constructor <;> nlinarith

theorem roundWithAccuracy_rounded (s : UnpackedFloat.Sign) {k : Nat} {e : Int} (hk : 52 ≤ k.log2)
    (hleast : -1022 ≤ k.log2 + e) :
    ∃ m e' hm, UnpackedFloat.roundWithAccuracy Format.binary64 s k e .exact = .finite s m e' hm ∧
      Rounded k e m e' := by
  obtain ⟨hlow, hhigh⟩ := div_bounds hk
  have hmantissa : (exactly k >>> (k.log2 - 52)).mantissa = k / 2 ^ (k.log2 - 52) := mantissa_shiftRight (exactly k) _
  have hrounded := roundedMantissa_cases (exactly k >>> (k.log2 - 52))
  rw [hmantissa] at hrounded
  have hexact : 2 ^ (k.log2 - 52) ∣ k →
      (exactly k >>> (k.log2 - 52)).roundedMantissa = k / 2 ^ (k.log2 - 52) := by
    intro hdvd
    rw [shiftRight_exactly hdvd]
    rfl
  unfold UnpackedFloat.roundWithAccuracy
  rw [shiftToTargetExponent_eq hk hleast]
  dsimp only
  generalize (exactly k >>> (k.log2 - 52)).roundedMantissa = r at hrounded hexact ⊢
  rcases Nat.lt_or_ge r (2 ^ 53) with hr | hr
  · have hlog := log2_eq_52 (show 2 ^ 52 ≤ r by omega) hr
    rw [shiftToTargetExponent_eq (by omega) (by omega), hlog, Nat.sub_self]
    have hne : (exactly r >>> 0).mantissa ≠ 0 := by
      change r ≠ 0
      omega
    rw [dif_neg hne]
    refine ⟨r, _, Nat.pos_of_ne_zero hne, rfl, by omega, hr, .inl (by simp), by simpa using near_of_quotient e hrounded,
      fun hdvd => ⟨?_, by simp⟩⟩
    rw [hexact hdvd, Nat.div_mul_cancel hdvd]
  · -- the mantissa has grown by one bit, so it is shifted once more
    obtain rfl : r = 2 ^ 53 := by omega
    have hlog : (2 ^ 53 : Nat).log2 = 53 := Nat.log2_two_pow
    rw [shiftToTargetExponent_eq (by omega) (by omega), hlog]
    have hmantissa : (exactly (2 ^ 53) >>> (53 - 52)).mantissa = 2 ^ 52 := by
      rw [mantissa_shiftRight]
      rfl
    have hne : (exactly (2 ^ 53) >>> (53 - 52)).mantissa ≠ 0 := by
      rw [hmantissa]
      decide
    rw [dif_neg hne]
    refine ⟨_, _, Nat.pos_of_ne_zero hne, rfl, hmantissa.ge, by omega, .inr ⟨hmantissa, by simp⟩, ?_, fun hdvd => ?_⟩
    · have hnear := near_of_quotient e hrounded
      have htwice : ((2 ^ 52 : Nat) : ℚ) * 2 ^ (e + ((k.log2 - 52 : Nat) : Int) + 1) =
          ((2 ^ 53 : Nat) : ℚ) * 2 ^ (e + ((k.log2 - 52 : Nat) : Int)) := by
        rw [zpow_add_one₀ (by norm_num)]
        push_cast
        ring
      rw [hmantissa]
      rwa [← htwice] at hnear
    · have := hexact hdvd
      omega

def Short (k : Nat) : Prop :=
  ∃ a j, a ≤ 2 ^ 53 ∧ k = a * 2 ^ j

theorem short_of_le {k : Nat} (h : k ≤ 2 ^ 53) : Short k :=
  ⟨k, 0, h, by simp⟩

theorem Short.dvd {k : Nat} (h : Short k) : 2 ^ (k.log2 - 52) ∣ k := by
  obtain ⟨a, j, ha, rfl⟩ := h
  rcases ha.lt_or_eq with hlt | rfl
  · rcases Nat.eq_zero_or_pos a with rfl | hpos
    · simp
    · have hlog : (a * 2 ^ j).log2 < 53 + j := by
        apply (Nat.log2_lt (by positivity)).2
        rw [pow_add]
        exact Nat.mul_lt_mul_of_pos_right hlt (by positivity)
      exact Dvd.dvd.mul_left (pow_dvd_pow 2 (by omega)) a
  · rw [← pow_add, Nat.log2_two_pow]
    exact pow_dvd_pow 2 (by omega)

theorem roundWithAccuracy_power (s : UnpackedFloat.Sign) {m : Nat} {e : Int} (hlow : 2 ^ 52 ≤ m) (hhigh : m < 2 ^ 53)
    (hleast : -1074 ≤ e + 52) :
    UnpackedFloat.roundWithAccuracy Format.binary64 s (2 ^ 52 * m) e .exact =
      .finite s m (e + 52) (Nat.lt_of_lt_of_le (by decide) hlow) := by
  have hlog : (2 ^ 52 * m).log2 = 104 := (Nat.log2_eq_iff (by omega)).2 ⟨by omega, by omega⟩
  obtain ⟨m', e', hm', hround, h⟩ := roundWithAccuracy_rounded s (k := 2 ^ 52 * m) (e := e) (by omega) (by omega)
  have hdvd : 2 ^ ((2 ^ 52 * m).log2 - 52) ∣ 2 ^ 52 * m := by
    rw [hlog]
    exact Dvd.intro m rfl
  obtain ⟨hmantissa, hexponent⟩ := h.exact hdvd
  rw [hlog] at hmantissa hexponent
  obtain rfl : m' = m := by omega
  obtain rfl : e' = e + 52 := hexponent
  exact hround

def value : UnpackedFloat → ℚ
  | .finite s m e _ => ((s.apply m : ℤ) : ℚ) * 2 ^ e
  | _ => 0

theorem abs_apply (s : UnpackedFloat.Sign) (m : Nat) : |((s.apply m : ℤ) : ℚ)| = m := by
  cases s <;> simp [UnpackedFloat.Sign.apply]

theorem abs_value_finite (s : UnpackedFloat.Sign) {m : Nat} (e : Int) (hm : 0 < m) :
    |value (.finite s m e hm)| = m * 2 ^ e := by
  rw [value, abs_mul, abs_apply, abs_of_pos (zpow_pos (by norm_num) e)]

theorem value_abs (u : UnpackedFloat) : value u.abs = |value u| := by
  cases u with
  | finite s m e hm =>
    rw [abs_value_finite]
    rfl
  | zero s => simp [UnpackedFloat.abs, value]
  | infinity s => simp [UnpackedFloat.abs, value]
  | notANumber => simp [UnpackedFloat.abs, value]

structure Near (n : Int) (e : Int) (u : UnpackedFloat) : Prop where
  regular : Regular u
  low : (2 : ℚ) ^ (n.natAbs.log2 + e) ≤ |value u|
  exact : Short n.natAbs → value u = n * 2 ^ e

theorem round_rounded (s : UnpackedFloat.Sign) {k : Nat} {e : Int} (hk : 0 < k) (hleast : -1022 ≤ k.log2 + e) :
    ∃ m e' hm, UnpackedFloat.round Format.binary64 s k e = .finite s m e' hm ∧ 2 ^ 52 ≤ m ∧ m < 2 ^ 53 ∧
      k.log2 + e - 52 ≤ e' ∧ e' ≤ k.log2 + e - 51 ∧ (Short k → (m : ℚ) * 2 ^ e' = k * 2 ^ e) := by
  have htarget : Format.binary64.targetExponent (totalExponent k e) = k.log2 + e - 52 := by
    rw [targetExponent_eq]
    omega
  unfold UnpackedFloat.round UnpackedFloat.decreaseExponent
  dsimp only
  rw [htarget]
  rcases Nat.lt_or_ge k.log2 52 with hlog | hlog
  · -- the mantissa is filled up with zeros
    obtain ⟨hlow, hhigh⟩ := (Nat.log2_eq_iff (by omega)).1 (rfl : k.log2 = k.log2)
    have hshift : (e - (k.log2 + e - 52)).toNat = 52 - k.log2 := by omega
    have hfull : 2 ^ 52 = 2 ^ k.log2 * 2 ^ (52 - k.log2) := by rw [← pow_add, Nat.add_sub_cancel' hlog.le]
    have hlow' : 2 ^ 52 ≤ k * 2 ^ (52 - k.log2) := hfull ▸ Nat.mul_le_mul_right _ hlow
    have hhigh' : k * 2 ^ (52 - k.log2) < 2 ^ 53 := by
      calc k * 2 ^ (52 - k.log2) < 2 ^ (k.log2 + 1) * 2 ^ (52 - k.log2) :=
            Nat.mul_lt_mul_of_pos_right hhigh (by positivity)
        _ = 2 ^ 53 := by rw [← pow_add]; congr 1; omega
    have hlog' := log2_eq_52 hlow' hhigh'
    rw [hshift, Nat.shiftLeft_eq]
    obtain ⟨m, e', hm, hround, h⟩ := roundWithAccuracy_rounded s (k := k * 2 ^ (52 - k.log2))
      (e := e - ((52 - k.log2 : Nat) : Int)) (by omega) (by omega)
    have hexact := h.exact (by rw [hlog']; exact one_dvd _)
    rw [hlog', Nat.sub_self, pow_zero, mul_one] at hexact
    obtain ⟨hmantissa, hexponent⟩ := hexact
    refine ⟨m, e', hm, hround, h.low, h.high, by omega, by omega, fun _ => ?_⟩
    rw [← hmantissa, hexponent]
    push_cast
    rw [mul_assoc, ← zpow_natCast, ← zpow_add₀ (by norm_num)]
    congr 2
    omega
  · have hshift : (e - (k.log2 + e - 52)).toNat = 0 := by omega
    rw [hshift, Nat.shiftLeft_zero, Nat.cast_zero, sub_zero]
    obtain ⟨m, e', hm, hround, h⟩ := roundWithAccuracy_rounded s hlog hleast
    have hexponent := h.exponent
    refine ⟨m, e', hm, hround, h.low, h.high, by omega, by omega, fun hshort => ?_⟩
    obtain ⟨hmantissa, hexact⟩ := h.exact hshort.dvd
    rw [hexact, zpow_add₀ (by norm_num), zpow_natCast]
    conv_rhs => rw [hmantissa]
    push_cast
    ring

theorem normalize_round {n : Int} (hn : n ≠ 0) (e : Int) (zero : UnpackedFloat.Sign) :
    ∃ s, UnpackedFloat.normalize Format.binary64 n e zero = UnpackedFloat.round Format.binary64 s n.natAbs e ∧
      UnpackedFloat.Sign.apply s n.natAbs = n := by
  unfold UnpackedFloat.normalize
  rcases lt_or_gt_of_ne hn with hneg | hpos
  · rw [compare_lt_iff_lt.2 hneg]
    refine ⟨.negative, ?_, ?_⟩
    · dsimp only
      congr 1
      omega
    · simp only [UnpackedFloat.Sign.apply]
      omega
  · rw [compare_gt_iff_gt.2 hpos]
    refine ⟨.positive, ?_, ?_⟩
    · dsimp only
      congr 1
      omega
    · simp only [UnpackedFloat.Sign.apply]
      omega

theorem normalize_near {n e : Int} (hn : n ≠ 0) (hleast : -1022 ≤ n.natAbs.log2 + e)
    (hgreatest : n.natAbs.log2 + e ≤ 1022) (zero : UnpackedFloat.Sign) :
    Near n e (UnpackedFloat.normalize Format.binary64 n e zero) := by
  obtain ⟨s, hnormalize, hsign⟩ := normalize_round hn e zero
  obtain ⟨m, e', hm, hround, hlow, hhigh, hle, hge, hexact⟩ :=
    round_rounded s (k := n.natAbs) (e := e) (by omega) hleast
  rw [hnormalize, hround]
  refine ⟨⟨hlow, hhigh, by omega, by omega⟩, ?_, fun hshort => ?_⟩
  · rw [abs_value_finite]
    have hpow : (2 : ℚ) ^ (n.natAbs.log2 + e) = 2 ^ 52 * 2 ^ (n.natAbs.log2 + e - 52) := by
      rw [← zpow_natCast, ← zpow_add₀ (by norm_num)]
      congr 1
      omega
    rw [hpow]
    exact mul_le_mul (by exact_mod_cast hlow) (zpow_le_zpow_right₀ (by norm_num) hle) (by positivity) (by positivity)
  · have hvalue := hexact hshort
    have hcast : (n : ℚ) = ((s.apply n.natAbs : ℤ) : ℚ) := by rw [hsign]
    rw [value, hcast]
    generalize n.natAbs = k at hvalue
    cases s <;> simp [UnpackedFloat.Sign.apply, hvalue]

end FactFold.Binary64
