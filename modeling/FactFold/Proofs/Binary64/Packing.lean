import FactFold.Proofs.Decimal.NotNaN

namespace FactFold.Binary64

open Float.Model

theorem unpackSign_packComponents {spec : Format} (s : UnpackedFloat.Sign) (e : BitVec spec.exponentBits)
    (m : BitVec spec.mantissaBitsWithoutImplicit) :
    UnpackedFloat.unpackSign (UnpackedFloat.packComponents spec s e m) = s.toBitVec := by
  apply BitVec.eq_of_getLsbD_eq
  intro i hi
  obtain rfl : i = 0 := by omega
  simp [UnpackedFloat.unpackSign, UnpackedFloat.packComponents, BitVec.getLsbD_append, BitVec.getElem_append]

theorem ofBitVec_toBitVec (s : UnpackedFloat.Sign) : UnpackedFloat.Sign.ofBitVec s.toBitVec = s := by
  cases s <;> rfl

theorem abs_unpack_packComponents {spec : Format} (s : UnpackedFloat.Sign) (e : BitVec spec.exponentBits)
    (m : BitVec spec.mantissaBitsWithoutImplicit) :
    (UnpackedFloat.unpack spec (UnpackedFloat.packComponents spec s e m)).abs =
      UnpackedFloat.unpack spec (UnpackedFloat.packComponents spec .positive e m) := by
  unfold UnpackedFloat.unpack
  simp only [UnpackedFloat.unpackMantissa_packComponents, UnpackedFloat.unpackExponent_packComponents,
    unpackSign_packComponents, ofBitVec_toBitVec]
  split
  · split <;> rfl
  · split
    · split <;> rfl
    · rfl

theorem pack_finite {spec : Format} (m : Nat) (e : Int) (hm : 0 < m) :
    ∃ exponent mantissa, ∀ s, UnpackedFloat.pack spec (.finite s m e hm) =
      UnpackedFloat.packComponents spec s exponent mantissa := by
  unfold UnpackedFloat.pack
  dsimp only
  split
  · exact ⟨_, _, fun s => rfl⟩
  · split
    · exact ⟨_, _, fun s => rfl⟩
    · exact ⟨_, _, fun s => rfl⟩

theorem abs_unpack_pack (u : UnpackedFloat) : (pack u).unpack.abs = (pack u.abs).unpack := by
  change (UnpackedFloat.unpack Format.binary64 (UnpackedFloat.pack Format.binary64 u)).abs =
    UnpackedFloat.unpack Format.binary64 (UnpackedFloat.pack Format.binary64 u.abs)
  cases u with
  | notANumber => rfl
  | infinity s => exact abs_unpack_packComponents s _ _
  | zero s => exact abs_unpack_packComponents s _ _
  | finite s m e hm =>
    obtain ⟨exponent, mantissa, hpack⟩ := @pack_finite Format.binary64 m e hm
    rw [UnpackedFloat.abs.eq_def (.finite s m e hm)]
    dsimp only
    rw [hpack s, hpack .positive, abs_unpack_packComponents]

def Regular : UnpackedFloat → Prop
  | .zero _ => True
  | .finite _ m e _ => 2 ^ 52 ≤ m ∧ m < 2 ^ 53 ∧ -1074 ≤ e ∧ e ≤ 971
  | _ => False

theorem Regular.cases {u : UnpackedFloat} (h : Regular u) :
    (∃ s, u = .zero s) ∨
      ∃ s m e hm, u = .finite s m e hm ∧ 2 ^ 52 ≤ m ∧ m < 2 ^ 53 ∧ -1074 ≤ e ∧ e ≤ 971 := by
  cases u with
  | zero s => exact .inl ⟨s, rfl⟩
  | finite s m e hm => exact .inr ⟨s, m, e, hm, rfl, h⟩
  | infinity s => cases h
  | notANumber => cases h

theorem Regular.abs {u : UnpackedFloat} (h : Regular u) : Regular u.abs := by
  rcases h.cases with ⟨s, rfl⟩ | ⟨s, m, e, hm, rfl, hbounds⟩
  · trivial
  · exact hbounds

theorem Regular.neg {u : UnpackedFloat} (h : Regular u) : Regular u.neg := by
  rcases h.cases with ⟨s, rfl⟩ | ⟨s, m, e, hm, rfl, hbounds⟩
  · trivial
  · exact hbounds

theorem append_implicit {m : Nat} (h : 2 ^ 52 ≤ m) (h' : m < 2 ^ 53) : (1#1 ++ BitVec.ofNat 52 m).toNat = m := by
  rw [BitVec.toNat_append, ← Nat.shiftLeft_add_eq_or_of_lt (BitVec.isLt _), BitVec.toNat_ofNat, Nat.shiftLeft_eq]
  change 1 * 2 ^ 52 + m % 2 ^ 52 = m
  omega

theorem unpack_pack {u : UnpackedFloat} (h : Regular u) : (pack u).unpack = u := by
  rcases h.cases with ⟨s, rfl⟩ | ⟨s, m, e, hm, rfl, hlow, hhigh, hleast, hgreatest⟩
  · cases s <;> rfl
  · have hbits : m.log2 + 1 = Format.binary64.mantissaBits := by
      rw [(Nat.log2_eq_iff (by omega)).2 ⟨hlow, hhigh⟩]
      rfl
    obtain ⟨biased, hbiased⟩ := Int.eq_ofNat_of_zero_le (show 0 ≤ e + 1023 + 52 by omega)
    have hexponent : (e + Format.binary64.exponentBias + Format.binary64.mantissaBitsWithoutImplicit).toNat = biased := by
      change (e + 1023 + 52).toNat = biased
      rw [hbiased]
      rfl
    have hroom : ¬ 2 ^ 11 ≤ biased + 1 := by omega
    have hones : BitVec.ofNat 11 biased ≠ -1#_ := Decimal.ofNat_ne (by omega)
    have hvalue : (BitVec.ofNat 11 biased).toNat = biased := by
      rw [BitVec.toNat_ofNat, Nat.mod_eq_of_lt (by omega)]
    have hzero : BitVec.ofNat 11 biased ≠ 0#_ := by
      intro hzero
      rw [hzero] at hvalue
      change 0 = biased at hvalue
      omega
    change UnpackedFloat.unpack Format.binary64 (UnpackedFloat.pack Format.binary64 (.finite s m e hm)) = _
    unfold UnpackedFloat.pack
    dsimp only
    rw [hexponent, if_neg hroom, if_pos hbits]
    unfold UnpackedFloat.unpack
    simp only [UnpackedFloat.unpackMantissa_packComponents, UnpackedFloat.unpackExponent_packComponents,
      unpackSign_packComponents, ofBitVec_toBitVec, hvalue, append_implicit hlow hhigh]
    rw [if_neg hones, if_neg hzero]
    congr 1
    change (biased : Int) - (1023 + 52) = e
    omega

end FactFold.Binary64
