import FactFold.Proofs.Binary64.Whole

namespace FactFold.Binary64

open Float.Model

def repack (u : UnpackedFloat) : UnpackedFloat :=
  (pack u).unpack

def larger (u v : UnpackedFloat) : UnpackedFloat :=
  if u.isNaN then v else if u.lt v then v else u

def tolerance (u : UnpackedFloat) : UnpackedFloat :=
  repack (UnpackedFloat.mul Format.binary64 floatEpsilon.toModel.unpack (larger u (1.0 : Float).toModel.unpack))

theorem lt_iff {x y : Float} : x < y ↔ x.toModel.unpack.lt y.toModel.unpack = true :=
  decide_eq_true_iff

theorem le_iff {x y : Float} : x ≤ y ↔ x.toModel.unpack.le y.toModel.unpack = true :=
  decide_eq_true_iff

theorem unpack_largerFloat (x y : Float) :
    (largerFloat x y).toModel.unpack = larger x.toModel.unpack y.toModel.unpack := by
  unfold largerFloat larger
  simp only [lt_iff, apply_ite (fun x : Float => x.toModel.unpack)]
  rfl

theorem nearlyEqual_iff (x y : Float) : nearlyEqual x y = true ↔
    (repack (repack (UnpackedFloat.sub Format.binary64 x.toModel.unpack y.toModel.unpack)).abs).le
      (tolerance (larger (repack x.toModel.unpack.abs) (repack y.toModel.unpack.abs))) = true := by
  unfold nearlyEqual tolerance
  rw [decide_eq_true_iff, le_iff]
  have habs (x : Float) : x.abs.toModel.unpack = repack x.toModel.unpack.abs := rfl
  have hsub : (x - y).toModel.unpack =
      repack (UnpackedFloat.sub Format.binary64 x.toModel.unpack y.toModel.unpack) := rfl
  have hmul (x y : Float) : (x * y).toModel.unpack =
      repack (UnpackedFloat.mul Format.binary64 x.toModel.unpack y.toModel.unpack) := rfl
  rw [habs, hsub, hmul, unpack_largerFloat, unpack_largerFloat, habs, habs]

theorem abs_abs (u : UnpackedFloat) : u.abs.abs = u.abs := by
  cases u <;> rfl

theorem repack_regular {u : UnpackedFloat} (h : Regular u) : repack u = u :=
  unpack_pack h

theorem repack_abs (u : UnpackedFloat) : (repack u).abs = repack u.abs :=
  abs_unpack_pack u

theorem abs_roundWithAccuracy {spec : Format} (s : UnpackedFloat.Sign) (m : Nat) (e : Int)
    (a : UnpackedFloat.Accuracy) : (UnpackedFloat.roundWithAccuracy spec s m e a).abs =
      UnpackedFloat.roundWithAccuracy spec .positive m e a := by
  unfold UnpackedFloat.roundWithAccuracy
  dsimp only
  split <;> rfl

theorem abs_normalize_neg {spec : Format} (n e : Int) (zero : UnpackedFloat.Sign) :
    (UnpackedFloat.normalize spec (-n) e zero).abs = (UnpackedFloat.normalize spec n e zero).abs := by
  have habs (s : UnpackedFloat.Sign) (k : Nat) :
      (UnpackedFloat.round spec s k e).abs = UnpackedFloat.round spec .positive k e :=
    abs_roundWithAccuracy s ..
  unfold UnpackedFloat.normalize
  rcases lt_trichotomy n 0 with hneg | rfl | hpos
  · rw [compare_lt_iff_lt.2 hneg, compare_gt_iff_gt.2 (Int.neg_pos_of_neg hneg)]
    exact (habs ..).trans (habs ..).symm
  · rfl
  · rw [compare_gt_iff_gt.2 hpos, compare_lt_iff_lt.2 (Int.neg_neg_of_pos hpos), Int.neg_neg]
    exact (habs ..).trans (habs ..).symm

theorem abs_sub_comm {spec : Format} (u v : UnpackedFloat) :
    (UnpackedFloat.sub spec u v).abs = (UnpackedFloat.sub spec v u).abs := by
  cases u with
  | notANumber => cases v <;> rfl
  | infinity s =>
    cases v with
    | infinity s' => cases s <;> cases s' <;> rfl
    | _ => rfl
  | zero s =>
    cases v with
    | zero s' => cases s <;> cases s' <;> rfl
    | _ => rfl
  | finite s m e hm =>
    cases v with
    | finite s' m' e' hm' =>
      unfold UnpackedFloat.sub
      dsimp only
      rw [min_comm e' e, ← Int.neg_sub, abs_normalize_neg]
    | _ => rfl

theorem compare_finite_comm (m m' : Nat) (e e' : Int) :
    (compare e' e).then (compare m' m) = ((compare e e').then (compare m m')).swap := by
  rw [Ordering.swap_then, ← Std.OrientedOrd.eq_swap, ← Std.OrientedOrd.eq_swap]

theorem larger_comm {u v : UnpackedFloat} (hu : u.abs = u) (hv : v.abs = v) : larger u v = larger v u := by
  rw [← hu, ← hv]
  cases u with
  | notANumber => cases v <;> rfl
  | infinity s => cases v <;> rfl
  | zero s => cases v <;> rfl
  | finite s m e hm =>
    cases v with
    | finite s' m' e' hm' =>
      change (if some ((compare e e').then (compare m m')) == some .lt then _ else _) =
        if some ((compare e' e).then (compare m' m)) == some .lt then _ else _
      rw [compare_finite_comm m m' e e']
      cases hcompare : (compare e e').then (compare m m') with
      | lt => rfl
      | gt => rfl
      | eq =>
        obtain ⟨he, hm⟩ := Ordering.then_eq_eq.1 hcompare
        obtain rfl := compare_eq_iff_eq.1 he
        obtain rfl := compare_eq_iff_eq.1 hm
        rfl
    | _ => rfl

theorem nearlyEqual_comm (x y : Float) : nearlyEqual x y = nearlyEqual y x := by
  rw [Bool.eq_iff_iff, nearlyEqual_iff, nearlyEqual_iff, repack_abs, repack_abs, abs_sub_comm,
    larger_comm (u := repack x.toModel.unpack.abs)]
  · rw [repack_abs, abs_abs]
  · rw [repack_abs, abs_abs]

theorem abs_mul {spec : Format} (u v : UnpackedFloat) :
    (UnpackedFloat.mul spec u v).abs = UnpackedFloat.mul spec u.abs v.abs := by
  cases u with
  | finite s m e hm =>
    cases v with
    | finite s' m' e' hm' => exact abs_roundWithAccuracy ..
    | _ => rfl
  | _ => cases v <;> rfl

theorem larger_cases (u v : UnpackedFloat) : larger u v = u ∨ larger u v = v := by
  unfold larger
  split
  · exact .inr rfl
  · split
    · exact .inr rfl
    · exact .inl rfl

theorem larger_ne {u v : UnpackedFloat} (hv : v ≠ .notANumber) : larger u v ≠ .notANumber := by
  unfold larger
  split
  · exact hv
  · next hu =>
    split
    · exact hv
    · exact fun hnan => hu (UnpackedFloat.isNaN_iff.2 hnan)

theorem unpack_one : (1.0 : Float).toModel.unpack = .finite .positive (2 ^ 52) (-52) (by decide) := by
  have hbits : (1.0 : Float).toBits = 0x3FF0000000000000 := by decide +kernel
  change UnpackedFloat.unpack Format.binary64 (1.0 : Float).toBits.toBitVec = _
  rw [hbits]
  rfl

theorem abs_larger {u v : UnpackedFloat} (hu : u.abs = u) (hv : v.abs = v) : (larger u v).abs = larger u v := by
  rcases larger_cases u v with h | h
  · rw [h, hu]
  · rw [h, hv]

theorem abs_one : (1.0 : Float).toModel.unpack.abs = (1.0 : Float).toModel.unpack := by
  rw [unpack_one]
  rfl

theorem tolerance_ne (u : UnpackedFloat) : tolerance u ≠ .notANumber := by
  apply Decimal.unpack_pack_ne _ (by decide)
  have hne : larger u (1.0 : Float).toModel.unpack ≠ .notANumber := by
    apply larger_ne
    rw [unpack_one]
    simp
  rw [unpack_epsilon]
  cases hw : larger u (1.0 : Float).toModel.unpack with
  | notANumber => exact absurd hw hne
  | infinity s => simp [UnpackedFloat.mul]
  | zero s => simp [UnpackedFloat.mul]
  | finite s m e hm => exact Decimal.round_ne _ _ _ _ _

theorem abs_tolerance {u : UnpackedFloat} (hu : u.abs = u) : (tolerance u).abs = tolerance u := by
  unfold tolerance
  rw [repack_abs, abs_mul, abs_larger hu abs_one, unpack_epsilon]
  rfl

theorem zero_le {w : UnpackedFloat} (s : UnpackedFloat.Sign) (habs : w.abs = w) (hne : w ≠ .notANumber) :
    (UnpackedFloat.zero s).le w = true := by
  rw [← habs]
  cases w with
  | notANumber => exact absurd rfl hne
  | _ => rfl

theorem sub_self_of_finite {spec : Format} {u : UnpackedFloat} (hnan : u ≠ .notANumber)
    (hinf : ∀ s, u ≠ .infinity s) : UnpackedFloat.sub spec u u = .zero .positive := by
  cases u with
  | notANumber => exact absurd rfl hnan
  | infinity s => exact absurd rfl (hinf s)
  | zero s => cases s <;> rfl
  | finite s m e hm =>
    unfold UnpackedFloat.sub
    dsimp only
    rw [Int.sub_self]
    rfl

theorem nearlyEqual_self {x : Float} (h : x.isNaN = false) : nearlyEqual x x = true ↔ x.isInf = false := by
  have hnan := Decimal.unpack_ne h
  have hinf : x.isInf = x.toModel.unpack.isInf := rfl
  rw [nearlyEqual_iff, hinf]
  cases hx : x.toModel.unpack with
  | notANumber => exact absurd hx hnan
  | infinity s =>
    cases s <;> exact iff_of_false (by decide) (by decide)
  | _ =>
    refine iff_of_true ?_ rfl
    rw [sub_self_of_finite (by simp) (by simp)]
    apply zero_le .positive
    · apply abs_tolerance
      apply abs_larger
      · rw [repack_abs, abs_abs]
      · rw [repack_abs, abs_abs]
    · exact tolerance_ne _

theorem abs_lt_iff {u v : UnpackedFloat} (hu : Regular u) (hv : Regular v) :
    u.abs.lt v.abs = true ↔ |value u| < |value v| := by
  rw [UnpackedFloat.lt, compare_abs hu hv, beq_iff_eq, Option.some_inj, compare_lt_iff_lt]

theorem abs_le_iff {u v : UnpackedFloat} (hu : Regular u) (hv : Regular v) :
    u.abs.le v.abs = true ↔ |value u| ≤ |value v| := by
  rw [UnpackedFloat.le, compare_abs hu hv, Option.any_some, Ordering.isLE_iff_ne_gt]
  exact compare_le_iff_le

theorem larger_regular {u v : UnpackedFloat} (hu : Regular u) (hv : Regular v) (hu' : u.abs = u) (hv' : v.abs = v) :
    Regular (larger u v) ∧ value (larger u v) = max (value u) (value v) := by
  have hnan : ¬ u.isNaN = true := by
    rw [UnpackedFloat.isNaN_iff]
    rintro rfl
    cases hu
  have hlt := abs_lt_iff hu hv
  rw [← value_abs, ← value_abs, hu', hv'] at hlt
  unfold larger
  rw [if_neg hnan]
  split
  · next h => exact ⟨hv, (max_eq_right (hlt.1 h).le).symm⟩
  · next h => exact ⟨hu, (max_eq_left (not_lt.1 (mt hlt.2 h))).symm⟩

theorem tolerance_regular {u : UnpackedFloat} (hu : Regular u) (hu' : u.abs = u) :
    Regular (tolerance u) ∧ value (tolerance u) = max (value u) 1 / 2 ^ 52 := by
  have hone : Regular (1.0 : Float).toModel.unpack := by
    rw [unpack_one]
    exact ⟨by norm_num, by norm_num, by norm_num, by norm_num⟩
  have hvalue : value (1.0 : Float).toModel.unpack = 1 := by
    rw [unpack_one, value]
    norm_num [UnpackedFloat.Sign.apply]
  obtain ⟨hregular, hlarger⟩ := larger_regular hu hone hu' abs_one
  have habs := abs_larger hu' abs_one
  rw [hvalue] at hlarger
  have hpos : 1 ≤ value (larger u (1.0 : Float).toModel.unpack) := hlarger ▸ le_max_right _ _
  unfold tolerance
  rw [← hlarger, unpack_epsilon]
  rcases hregular.cases with ⟨s, hw⟩ | ⟨s, m, e, hm, hw, hlow, hhigh, -, hgreatest⟩
  · rw [hw] at hpos
    norm_num [value] at hpos
  · rw [hw] at hpos habs ⊢
    obtain rfl : UnpackedFloat.Sign.positive = s := by injection habs
    have hleast : -1022 ≤ e := by
      by_contra hlt
      have hless := mul_pow_lt hhigh (Nat.le_refl (2 ^ 52)) (show e < -52 by omega)
      refine not_le.2 hless (le_trans (le_of_eq ?_) hpos)
      norm_num
    have hmul : UnpackedFloat.mul Format.binary64 (.finite .positive (2 ^ 52) (-104) (by decide))
        (.finite .positive m e hm) = .finite .positive m (-104 + e + 52) hm :=
      roundWithAccuracy_power .positive hlow hhigh (by omega)
    have hproduct : Regular (.finite .positive m (-104 + e + 52) hm) := ⟨hlow, hhigh, by omega, by omega⟩
    rw [hmul, repack_regular hproduct]
    refine ⟨hproduct, ?_⟩
    have hpow : (2 : ℚ) ^ (-104 + e + 52) * 2 ^ 52 = 2 ^ e := by
      rw [← zpow_natCast, ← zpow_add₀ (by norm_num)]
      congr 1
      omega
    rw [value, value, eq_div_iff (by norm_num), mul_assoc, hpow]

theorem nearlyEqual_whole {x y : Float} {a b : Int} (hx : Whole x a) (hy : Whole y b) :
    nearlyEqual x y = true ↔ 2 ^ 52 * |a - b| ≤ max (max |a| |b|) 1 := by
  obtain ⟨hu, ha, hasmall⟩ := hx
  obtain ⟨hv, hb, hbsmall⟩ := hy
  have hsmall : |a - b| < 2 ^ 66 := by
    rw [abs_lt] at *
    constructor <;> linarith
  have hsub := sub_gauges hu hv ha hb hsmall
  obtain ⟨hlarger, hmax⟩ := larger_regular hu.abs hv.abs (abs_abs _) (abs_abs _)
  have hunsigned := abs_larger (abs_abs x.toModel.unpack) (abs_abs y.toModel.unpack)
  obtain ⟨htolerance, hvalue⟩ := tolerance_regular hlarger hunsigned
  have hbound : max (max |(a : ℚ)| |(b : ℚ)|) 1 = ((max (max |a| |b|) 1 : ℤ) : ℚ) := by push_cast; rfl
  have hbig : max (max |a| |b|) 1 < 2 ^ 65 := max_lt (max_lt hasmall hbsmall) (by norm_num)
  have hone : 1 ≤ max (max |a| |b|) 1 := le_max_right _ _
  rw [value_abs, value_abs, ha, hb] at hmax
  rw [hmax, hbound] at hvalue
  rw [nearlyEqual_iff, repack_abs, repack_regular hsub.regular.abs, repack_regular hsub.regular.abs,
    repack_regular hu.abs, repack_regular hv.abs, ← abs_tolerance hunsigned, abs_le_iff hsub.regular htolerance, hvalue]
  generalize max (max |a| |b|) 1 = bound at hbig hone ⊢
  have hpos : (0 : ℚ) ≤ bound / 2 ^ 52 := by
    have : (1 : ℚ) ≤ bound := by exact_mod_cast hone
    positivity
  rw [abs_of_nonneg hpos, le_div_iff₀ (by norm_num), mul_comm]
  rcases le_or_gt |a - b| (2 ^ 53) with hshort | hlong
  · rw [hsub.short hshort]
    exact_mod_cast Iff.rfl
  · have hfar := hsub.long hlong
    refine iff_of_false ?_ (by omega)
    have : (bound : ℚ) < 2 ^ 65 := by exact_mod_cast hbig
    rw [not_le]
    linarith

end FactFold.Binary64
