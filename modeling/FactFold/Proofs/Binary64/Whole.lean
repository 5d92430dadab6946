import FactFold.Proofs.Binary64.Rounding
import FactFold.Value.Agreement

namespace FactFold.Binary64

open Float.Model

structure Whole (x : Float) (w : Int) : Prop where
  regular : Regular x.toModel.unpack
  value : value x.toModel.unpack = w
  small : |w| < 2 ^ 65

theorem mul_positive (s : UnpackedFloat.Sign) : s * .positive = s := by
  cases s <;> rfl

theorem mul_one_eq {u : UnpackedFloat} (h : Regular u) :
    UnpackedFloat.mul Format.binary64 u (.finite .positive (2 ^ 52) (-52) (by decide)) = u := by
  rcases h.cases with ⟨s, rfl⟩ | ⟨s, m, e, hm, rfl, hlow, hhigh, hleast, -⟩
  · change UnpackedFloat.zero (s * .positive) = .zero s
    rw [mul_positive]
  · change UnpackedFloat.roundWithAccuracy Format.binary64 (s * .positive) (m * 2 ^ 52) (e + -52) .exact = _
    rw [mul_positive, Nat.mul_comm, roundWithAccuracy_power s hlow hhigh (by omega)]
    congr 1
    omega

theorem unpack_epsilon : floatEpsilon.toModel.unpack = .finite .positive (2 ^ 52) (-104) (by decide) :=
  rfl

theorem value_zero (s : UnpackedFloat.Sign) : Binary64.value (.zero s) = 0 :=
  rfl

theorem whole_zero {x : Float} {s : UnpackedFloat.Sign} (h : x.toModel.unpack = .zero s) : Whole x 0 := by
  refine ⟨?_, ?_, by decide⟩
  · rw [h]
    trivial
  · rw [h]
    simp [Binary64.value]

theorem ofNat_short {n : Nat} (hn : n < 2 ^ 53) : Whole (Float.ofNat n) n := by
  have htoNat : n.toUInt64.toNat = n := Nat.mod_eq_of_lt (by omega)
  have hfloat : Float.ofNat n = n.toUInt64.toFloat * Float.ofBits 0x3FF0000000000000 := by
    change Float.ofScientific n false 0 = _
    unfold Float.ofScientific
    rw [dif_pos ⟨hn, by decide⟩]
    rfl
  have hunpack : (Float.ofNat n).toModel.unpack = (pack (UnpackedFloat.mul Format.binary64
      (pack (UnpackedFloat.normalize Format.binary64 n 0 .positive)).unpack
      (.finite .positive (2 ^ 52) (-52) (by decide)))).unpack := by
    rw [hfloat]
    conv_rhs => rw [← htoNat]
    rfl
  rcases Nat.eq_zero_or_pos n with rfl | hpos
  · exact whole_zero hunpack
  · have hlog : n.log2 < 53 := (Nat.log2_lt (by omega)).2 hn
    have hnear := normalize_near (n := n) (e := 0) (by omega) (by omega) (by simp; omega) .positive
    rw [unpack_pack hnear.regular, mul_one_eq hnear.regular, unpack_pack hnear.regular] at hunpack
    refine ⟨?_, ?_, ?_⟩
    · rw [hunpack]
      exact hnear.regular
    · rw [hunpack, hnear.exact (short_of_le (by omega))]
      simp
    · rw [abs_of_nonneg (by omega)]
      omega

theorem log2_mul_pow {n : Nat} (hn : 0 < n) (j : Nat) : (n * 2 ^ j).log2 = n.log2 + j := by
  obtain ⟨hlow, hhigh⟩ := (Nat.log2_eq_iff hn.ne').1 rfl
  refine (Nat.log2_eq_iff (by positivity)).2 ⟨?_, ?_⟩
  · rw [pow_add]
    exact Nat.mul_le_mul_right _ hlow
  · rw [Nat.add_right_comm, pow_add]
    exact Nat.mul_lt_mul_of_pos_right hhigh (by positivity)

theorem unpack_ofNat_long {n : Nat} (hn : 2 ^ 53 ≤ n) : (Float.ofNat n).toModel.unpack =
    (pack (UnpackedFloat.roundWithAccuracy Format.binary64 .positive (n * 2 ^ 53) (-53) .exact)).unpack := by
  change (Float.ofScientific n false 0).toModel.unpack = _
  unfold Float.ofScientific
  rw [dif_neg (by omega)]
  change (pack (UnpackedFloat.ofScientific Format.binary64 n 0)).unpack = _
  unfold UnpackedFloat.ofScientific
  rw [dif_neg (by omega), if_neg (by decide), if_neg (by simp), if_pos (Int.le_refl 0)]
  change (pack (UnpackedFloat.roundWithAccuracy Format.binary64 .positive (n <<< 53 * 1) (-53 + 0) .exact)).unpack = _
  rw [Nat.shiftLeft_eq, Nat.mul_one, Int.add_zero]

theorem ofNat_long {n : Nat} (hn : 2 ^ 53 ≤ n) (hn' : n ≤ 2 ^ 63) :
    ∃ w, Whole (Float.ofNat n) w ∧ 2 ^ 52 * |w - n| ≤ n ∧ (n ≤ 2 ^ 53 → w = n) := by
  have hunpack := unpack_ofNat_long hn
  have hlog : 53 ≤ n.log2 := (Nat.le_log2 (by omega)).2 hn
  have hlog' : n.log2 < 64 := (Nat.log2_lt (by omega)).2 (by omega)
  have hlogs := log2_mul_pow (show 0 < n by omega) 53
  obtain ⟨m, e, hm, hround, h⟩ := roundWithAccuracy_rounded .positive (k := n * 2 ^ 53) (e := -53) (by omega) (by omega)
  have hexponent := h.exponent
  obtain ⟨i, rfl⟩ := Int.eq_ofNat_of_zero_le (show 0 ≤ e by omega)
  have hregular : Regular (.finite .positive m i hm) := ⟨h.low, h.high, by omega, by omega⟩
  rw [hround, unpack_pack hregular] at hunpack
  refine ⟨m * 2 ^ i, ⟨by rwa [hunpack], ?_, ?_⟩, ?_, fun hle => ?_⟩
  · rw [hunpack]
    simp [Binary64.value, UnpackedFloat.Sign.apply]
  · have hpow : (2 : Int) ^ i ≤ 2 ^ 12 := pow_le_pow_right₀ (by norm_num) (by omega)
    have hhigh : (m : Int) < 2 ^ 53 := by exact_mod_cast h.high
    rw [abs_of_nonneg (by positivity)]
    calc (m : Int) * 2 ^ i ≤ m * 2 ^ 12 := Int.mul_le_mul_of_nonneg_left hpow (by positivity)
      _ < 2 ^ 65 := by omega
  · have hnear := h.near
    have hexact : ((n * 2 ^ 53 : Nat) : ℚ) * 2 ^ (-53 : Int) = n := by
      rw [Nat.cast_mul, mul_assoc, Nat.cast_pow, Nat.cast_ofNat, ← zpow_natCast, ← zpow_add₀ (by norm_num)]
      simp
    have hspacing : (2 : ℚ) ^ (-53 + (((n * 2 ^ 53).log2 - 52 : Nat) : Int)) * 2 ^ 52 ≤ n := by
      rw [hlogs, ← zpow_natCast, ← zpow_add₀ (by norm_num)]
      have hsum : -53 + ((n.log2 + 53 - 52 : Nat) : Int) + (52 : Nat) = (n.log2 : Nat) := by omega
      rw [hsum, zpow_natCast]
      exact_mod_cast Nat.log2_self_le (by omega)
    rw [hexact] at hnear
    have hbound : 2 ^ 52 * |(m : ℚ) * 2 ^ (i : Int) - n| ≤ n := by linarith
    exact_mod_cast hbound
  · obtain rfl : n = 2 ^ 53 := by omega
    obtain ⟨hmantissa, hexact⟩ := h.exact (Short.dvd ⟨2 ^ 53, 53, Nat.le_refl _, rfl⟩)
    have hlog53 : (2 ^ 53 : Nat).log2 = 53 := Nat.log2_two_pow
    rw [hlogs, hlog53] at hmantissa hexact
    obtain rfl : i = 1 := by omega
    omega

theorem value_neg (u : UnpackedFloat) : Binary64.value u.neg = -Binary64.value u := by
  cases u with
  | finite s m e hm =>
    cases s with
    | negative =>
      change Binary64.value (.finite .positive m e hm) = _
      simp [Binary64.value, UnpackedFloat.Sign.apply]
    | positive =>
      change Binary64.value (.finite .negative m e hm) = _
      simp [Binary64.value, UnpackedFloat.Sign.apply]
  | zero s => simp [UnpackedFloat.neg, Binary64.value]
  | infinity s => simp [UnpackedFloat.neg, Binary64.value]
  | notANumber => simp [UnpackedFloat.neg, Binary64.value]

theorem Whole.neg {x : Float} {w : Int} (h : Whole x w) : Whole x.neg (-w) := by
  have hunpack : x.neg.toModel.unpack = x.toModel.unpack.neg := unpack_pack h.regular.neg
  refine ⟨by rw [hunpack]; exact h.regular.neg, ?_, by rw [abs_neg]; exact h.small⟩
  rw [hunpack, value_neg, h.value]
  push_cast
  rfl

theorem ofInt_whole {n : Int} (hn : |n| ≤ 2 ^ 63) :
    ∃ w, Whole (Float.ofInt n) w ∧ 2 ^ 52 * |w - n| ≤ |n| ∧ (|n| ≤ 2 ^ 53 → w = n) := by
  have hnat {k : Nat} (hk : k ≤ 2 ^ 63) :
      ∃ w, Whole (Float.ofNat k) w ∧ 2 ^ 52 * |w - k| ≤ k ∧ (k ≤ 2 ^ 53 → w = k) := by
    rcases Nat.lt_or_ge k (2 ^ 53) with hlt | hge
    · exact ⟨k, ofNat_short hlt, by simp, fun _ => rfl⟩
    · exact ofNat_long hge hk
  cases n with
  | ofNat k =>
    rw [Int.ofNat_eq_natCast, abs_of_nonneg (by positivity)] at hn ⊢
    obtain ⟨w, hw, hnear, hexact⟩ := hnat (show k ≤ 2 ^ 63 by omega)
    exact ⟨w, hw, hnear, fun hle => hexact (by omega)⟩
  | negSucc k =>
    rw [Int.negSucc_eq, abs_neg, abs_of_nonneg (by positivity)] at hn ⊢
    obtain ⟨w, hw, hnear, hexact⟩ := hnat (show k + 1 ≤ 2 ^ 63 by omega)
    refine ⟨-w, hw.neg, ?_, fun hle => ?_⟩
    · rw [← neg_sub_neg, abs_sub_comm, neg_neg, neg_neg]
      exact_mod_cast hnear
    · rw [hexact (by omega)]
      push_cast
      rfl

/-- The magnitude of a whole number, or at least one that is not smaller where 53 bits do not do. -/
structure Gauges (u : UnpackedFloat) (d : Int) : Prop where
  regular : Regular u
  short : |d| ≤ 2 ^ 53 → |Binary64.value u| = |(d : ℚ)|
  long : 2 ^ 53 < |d| → 2 ^ 53 ≤ |Binary64.value u|

theorem gauges_of_eq {u : UnpackedFloat} {d : Int} (hu : Regular u) (h : |Binary64.value u| = |(d : ℚ)|) :
    Gauges u d := by
  refine ⟨hu, fun _ => h, fun hlong => ?_⟩
  rw [h]
  exact_mod_cast hlong.le

theorem log2_bounds {n e d : Int} (hn : n ≠ 0) (hd : (n : ℚ) * 2 ^ e = d) :
    (2 : ℚ) ^ (n.natAbs.log2 + e) ≤ |(d : ℚ)| ∧ |(d : ℚ)| < 2 ^ (n.natAbs.log2 + e + 1) := by
  obtain ⟨hlow, hhigh⟩ := (Nat.log2_eq_iff (Int.natAbs_ne_zero.2 hn)).1 rfl
  have habs : |(d : ℚ)| = (n.natAbs : ℚ) * 2 ^ e := by
    rw [← hd, abs_mul, abs_of_pos (zpow_pos (by norm_num : (0 : ℚ) < 2) e), Nat.cast_natAbs, Int.cast_abs]
  have hpos : (0 : ℚ) < 2 ^ e := zpow_pos (by norm_num) e
  rw [habs, Int.add_right_comm, zpow_add₀ (by norm_num), zpow_add₀ (by norm_num)]
  refine ⟨mul_le_mul_of_nonneg_right ?_ hpos.le, mul_lt_mul_of_pos_right ?_ hpos⟩
  · rw [zpow_natCast]
    exact_mod_cast hlow
  · exact_mod_cast hhigh

theorem Near.gauges {n e d : Int} {u : UnpackedFloat} (h : Near n e u) (hn : n ≠ 0) (hd : (n : ℚ) * 2 ^ e = d) :
    Gauges u d := by
  obtain ⟨-, hhigh⟩ := log2_bounds hn hd
  refine ⟨h.regular, fun hshort => ?_, fun hlong => ?_⟩
  · rw [Int.abs_eq_natAbs] at hshort
    have hbits : Short n.natAbs := by
      rcases le_total e 0 with he | he
      · obtain ⟨j, rfl⟩ : ∃ j : Nat, e = -j := ⟨(-e).toNat, by omega⟩
        refine ⟨d.natAbs, j, by omega, ?_⟩
        have hnd : n = d * 2 ^ j := by
          rw [zpow_neg, zpow_natCast, ← div_eq_mul_inv, div_eq_iff (by positivity)] at hd
          exact_mod_cast hd
        rw [hnd, Int.natAbs_mul, Int.natAbs_pow]
        rfl
      · obtain ⟨j, rfl⟩ := Int.eq_ofNat_of_zero_le he
        have hnd : n * 2 ^ j = d := by
          rw [zpow_natCast] at hd
          exact_mod_cast hd
        have habs : n.natAbs ≤ d.natAbs := by
          rw [← hnd, Int.natAbs_mul, Int.natAbs_pow]
          exact Nat.le_mul_of_pos_right _ (by positivity)
        exact short_of_le (by omega)
    rw [h.exact hbits, hd]
  · have hlong' : (2 : ℚ) ^ (53 : ℤ) < 2 ^ (n.natAbs.log2 + e + 1) :=
      lt_trans (by exact_mod_cast hlong) hhigh
    have hexponent := (zpow_lt_zpow_iff_right₀ (by norm_num : (1 : ℚ) < 2)).1 hlong'
    have hle : (2 : ℚ) ^ (53 : ℤ) ≤ 2 ^ (n.natAbs.log2 + e) := zpow_le_zpow_right₀ (by norm_num) (by omega)
    exact le_trans (by exact_mod_cast hle) h.low

theorem decreaseExponent_value (s : UnpackedFloat.Sign) (m : Nat) {e target : Int} (h : target ≤ e) :
    ((s.apply (UnpackedFloat.decreaseExponent m e target).1 : ℤ) : ℚ) * 2 ^ target =
      ((s.apply m : ℤ) : ℚ) * 2 ^ e := by
  obtain ⟨j, hj⟩ := Int.eq_ofNat_of_zero_le (Int.sub_nonneg_of_le h)
  have hmantissa : (UnpackedFloat.decreaseExponent m e target).1 = m * 2 ^ j := by
    unfold UnpackedFloat.decreaseExponent
    dsimp only
    rw [hj, Int.toNat_natCast, Nat.shiftLeft_eq]
  have he : (2 : ℚ) ^ e = 2 ^ j * 2 ^ target := by
    rw [← zpow_natCast, ← zpow_add₀ (by norm_num)]
    congr 1
    omega
  rw [hmantissa, he]
  cases s <;> simp [UnpackedFloat.Sign.apply] <;> ring

theorem normalize_gauges {n e d : Int} (hd : (n : ℚ) * 2 ^ e = d) (hsmall : |d| < 2 ^ 66) :
    Gauges (UnpackedFloat.normalize Format.binary64 n e .positive) d := by
  have hpos : (0 : ℚ) < 2 ^ e := by positivity
  by_cases hzero : n = 0
  · subst hzero
    obtain rfl : d = 0 := by
      rw [Int.cast_zero, zero_mul] at hd
      exact_mod_cast hd.symm
    exact gauges_of_eq trivial (by simp [UnpackedFloat.normalize, Binary64.value])
  · obtain ⟨hlow, hhigh⟩ := log2_bounds hzero hd
    have hne : d ≠ 0 := by
      rintro rfl
      rw [Int.cast_zero] at hd
      exact hzero (by exact_mod_cast (mul_eq_zero.1 hd).resolve_right hpos.ne')
    have hone : (2 : ℚ) ^ (0 : ℤ) ≤ |(d : ℚ)| := by exact_mod_cast Int.one_le_abs hne
    have hless : |(d : ℚ)| < 2 ^ (66 : ℤ) := by exact_mod_cast hsmall
    have hleast := (zpow_lt_zpow_iff_right₀ (by norm_num : (1 : ℚ) < 2)).1 (lt_of_le_of_lt hone hhigh)
    have hgreatest := (zpow_lt_zpow_iff_right₀ (by norm_num : (1 : ℚ) < 2)).1 (lt_of_le_of_lt hlow hless)
    exact (normalize_near hzero (by omega) (by omega) .positive).gauges hzero hd

theorem eq_zero_of_value {s : UnpackedFloat.Sign} {a : Int} (h : Binary64.value (.zero s) = a) : a = 0 := by
  rw [value_zero] at h
  exact_mod_cast h.symm

theorem sub_gauges {u v : UnpackedFloat} {a b : Int} (hu : Regular u) (hv : Regular v) (ha : Binary64.value u = a)
    (hb : Binary64.value v = b) (hd : |a - b| < 2 ^ 66) : Gauges (UnpackedFloat.sub Format.binary64 u v) (a - b) := by
  rcases hu.cases with ⟨s, rfl⟩ | ⟨s, m, e, hm, rfl, -⟩ <;> rcases hv.cases with ⟨s', rfl⟩ | ⟨s', m', e', hm', rfl, -⟩
  case inl.inl =>
    obtain rfl := eq_zero_of_value ha
    obtain rfl := eq_zero_of_value hb
    obtain ⟨s'', hsub⟩ : ∃ s'', UnpackedFloat.sub Format.binary64 (.zero s) (.zero s') = .zero s'' := by
      unfold UnpackedFloat.sub
      dsimp only
      split <;> exact ⟨_, rfl⟩
    rw [hsub]
    exact gauges_of_eq trivial (by simp [value_zero])
  case inl.inr =>
    obtain rfl := eq_zero_of_value ha
    refine gauges_of_eq (u := .finite (-s') m' e' hm') hv ?_
    rw [abs_value_finite, ← abs_value_finite s' e' hm', hb]
    simp
  case inr.inl =>
    obtain rfl := eq_zero_of_value hb
    refine gauges_of_eq (u := .finite s m e hm) hu ?_
    rw [ha]
    simp
  case inr.inr =>
    have hvalue := decreaseExponent_value s m (Int.min_le_left e e')
    have hvalue' := decreaseExponent_value s' m' (Int.min_le_right e e')
    rw [Binary64.value] at ha hb
    rw [ha] at hvalue
    rw [hb] at hvalue'
    have hdiff : ((s.apply (UnpackedFloat.decreaseExponent m e (min e e')).1 -
        s'.apply (UnpackedFloat.decreaseExponent m' e' (min e e')).1 : ℤ) : ℚ) * 2 ^ min e e' = ((a - b : ℤ) : ℚ) := by
      rw [Int.cast_sub, Int.cast_sub, sub_mul, hvalue, hvalue']
    exact normalize_gauges hdiff hd

theorem mul_pow_lt {m m' : Nat} {e e' : Int} (hm : m < 2 ^ 53) (hm' : 2 ^ 52 ≤ m') (he : e < e') :
    (m : ℚ) * 2 ^ e < m' * 2 ^ e' := by
  have hcast : (m : ℚ) < 2 ^ 53 := by exact_mod_cast hm
  have hcast' : (2 : ℚ) ^ 52 ≤ m' := by exact_mod_cast hm'
  calc (m : ℚ) * 2 ^ e < 2 ^ 53 * 2 ^ e := mul_lt_mul_of_pos_right hcast (by positivity)
    _ = 2 ^ 52 * 2 ^ (e + 1) := by rw [zpow_add_one₀ (by norm_num)]; ring
    _ ≤ m' * 2 ^ e' := mul_le_mul hcast' (zpow_le_zpow_right₀ (by norm_num) he) (by positivity) (by positivity)

theorem compare_abs {u v : UnpackedFloat} (hu : Regular u) (hv : Regular v) :
    UnpackedFloat.compare u.abs v.abs = some (compare |Binary64.value u| |Binary64.value v|) := by
  have hfinite {s : UnpackedFloat.Sign} {m : Nat} {e : Int} (hm : 0 < m) : 0 < |Binary64.value (.finite s m e hm)| := by
    rw [abs_value_finite]
    positivity
  rcases hu.cases with ⟨s, rfl⟩ | ⟨s, m, e, hm, rfl, hlow, hhigh, -⟩ <;>
    rcases hv.cases with ⟨s', rfl⟩ | ⟨s', m', e', hm', rfl, hlow', hhigh', -⟩
  case inl.inl =>
    rw [value_zero, value_zero, compare_eq_iff_eq.2 rfl]
    rfl
  case inl.inr =>
    rw [compare_lt_iff_lt.2 (by simpa [Binary64.value] using hfinite (s := s') (e := e') hm')]
    rfl
  case inr.inl =>
    rw [compare_gt_iff_gt.2 (by simpa [Binary64.value] using hfinite (s := s) (e := e) hm)]
    rfl
  case inr.inr =>
    rw [abs_value_finite, abs_value_finite]
    change some ((compare e e').then (compare m m')) = _
    rcases lt_trichotomy e e' with he | rfl | he
    · rw [compare_lt_iff_lt.2 he, compare_lt_iff_lt.2 (mul_pow_lt hhigh hlow' he)]
      rfl
    · have hpos : (0 : ℚ) < 2 ^ e := by positivity
      rw [compare_eq_iff_eq.2 rfl]
      congr 1
      change compare m m' = _
      rcases lt_trichotomy m m' with hlt | rfl | hgt
      · rw [compare_lt_iff_lt.2 hlt, compare_lt_iff_lt.2 (mul_lt_mul_of_pos_right (by exact_mod_cast hlt) hpos)]
      · rw [compare_eq_iff_eq.2 rfl, compare_eq_iff_eq.2 rfl]
      · rw [compare_gt_iff_gt.2 hgt, compare_gt_iff_gt.2 (mul_lt_mul_of_pos_right (by exact_mod_cast hgt) hpos)]
    · rw [compare_gt_iff_gt.2 he, compare_gt_iff_gt.2 (mul_pow_lt hhigh' hlow he)]
      rfl

end FactFold.Binary64
