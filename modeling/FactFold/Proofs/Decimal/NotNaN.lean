import Mathlib
import FactFold.Decimal.Reading

namespace FactFold.Decimal

open Float.Model

theorem nan_unpack {spec : Format} {b : BitVec spec.numBits} (h : UnpackedFloat.unpack spec b = .notANumber) :
    UnpackedFloat.unpackExponent b = -1#_ ∧ UnpackedFloat.unpackMantissa b ≠ 0#_ := by
  unfold UnpackedFloat.unpack at h
  dsimp only at h
  split at h
  · next he =>
    split at h
    · cases h
    · next hm => exact ⟨he, hm⟩
  · split at h
    · split at h <;> cases h
    · cases h

theorem unpack_packComponents_ne {spec : Format} (s : UnpackedFloat.Sign) {e : BitVec spec.exponentBits}
    {m : BitVec spec.mantissaBitsWithoutImplicit} (h : e ≠ -1#_ ∨ m = 0#_) :
    UnpackedFloat.unpack spec (UnpackedFloat.packComponents spec s e m) ≠ .notANumber := by
  intro hnan
  have hbits := nan_unpack hnan
  rw [UnpackedFloat.unpackExponent_packComponents, UnpackedFloat.unpackMantissa_packComponents] at hbits
  rcases h with h | h
  · exact h hbits.1
  · exact hbits.2 h

theorem ofNat_ne {w n : Nat} (h : n + 1 < 2 ^ w) : BitVec.ofNat w n ≠ -1#w := by
  intro he
  have := congrArg BitVec.toNat he
  rw [BitVec.toNat_ofNat, Nat.mod_eq_of_lt (by omega), BitVec.neg_one_eq_allOnes, BitVec.toNat_allOnes] at this
  omega

theorem unpack_pack_ne {spec : Format} {u : UnpackedFloat} (h : u ≠ .notANumber) (hspec : 1 < spec.exponentBits) :
    UnpackedFloat.unpack spec (UnpackedFloat.pack spec u) ≠ .notANumber := by
  cases u with
  | notANumber => exact absurd rfl h
  | infinity s => exact unpack_packComponents_ne s (.inr rfl)
  | zero s => exact unpack_packComponents_ne s (.inr rfl)
  | finite s m e hm =>
    -- NaN has an exponent of ones alone, which no finite float is packed with
    unfold UnpackedFloat.pack
    dsimp only
    split
    · exact unpack_packComponents_ne s (.inr rfl)
    · split
      · exact unpack_packComponents_ne s (.inl (ofNat_ne (by omega)))
      · exact unpack_packComponents_ne s (.inl (ofNat_ne (Nat.one_lt_two_pow (by omega))))

theorem pack_isNaN {u : UnpackedFloat} (h : u ≠ .notANumber) : (Float.ofModel (pack u)).isNaN = false := by
  have hunpack : (pack u).unpack ≠ .notANumber := unpack_pack_ne h (by decide)
  rw [← Bool.not_eq_true]
  exact fun hnan => hunpack (UnpackedFloat.isNaN_iff.1 hnan)

theorem unpack_ne {x : Float} (h : x.isNaN = false) : x.toModel.unpack ≠ .notANumber := by
  intro hnan
  have : x.isNaN = true := UnpackedFloat.isNaN_iff.2 hnan
  rw [this] at h
  cases h

theorem round_ne (spec : Format) (s : UnpackedFloat.Sign) (m : Nat) (e : Int) (a : UnpackedFloat.Accuracy) :
    UnpackedFloat.roundWithAccuracy spec s m e a ≠ .notANumber := by
  unfold UnpackedFloat.roundWithAccuracy
  dsimp only
  split <;> simp

def isFinitePart : UnpackedFloat → Bool
  | .finite .. => true
  | _ => false

theorem mul_ne {spec : Format} {u v : UnpackedFloat} (hu : u ≠ .notANumber) (hv : isFinitePart v = true) :
    UnpackedFloat.mul spec u v ≠ .notANumber := by
  cases v with
  | finite s m e hm =>
    cases u with
    | notANumber => exact absurd rfl hu
    | finite s' m' e' hm' => exact round_ne _ _ _ _ _
    | infinity s' => simp [UnpackedFloat.mul]
    | zero s' => simp [UnpackedFloat.mul]
  | _ => cases hv

theorem div_ne {spec : Format} {u v : UnpackedFloat} (hu : u ≠ .notANumber) (hv : isFinitePart v = true) :
    UnpackedFloat.div spec u v ≠ .notANumber := by
  cases v with
  | finite s m e hm =>
    cases u with
    | notANumber => exact absurd rfl hu
    | finite s' m' e' hm' => exact round_ne _ _ _ _ _
    | infinity s' => simp [UnpackedFloat.div]
    | zero s' => simp [UnpackedFloat.div]
  | _ => cases hv

theorem ofScientific_ne (spec : Format) (m : Nat) (e : Int) :
    UnpackedFloat.ofScientific spec m e ≠ .notANumber := by
  unfold UnpackedFloat.ofScientific
  split
  · simp
  · split
    · simp
    · split
      · simp
      · split
        · exact round_ne _ _ _ _ _
        · exact round_ne _ _ _ _ _

theorem normalize_ne (spec : Format) (m e : Int) (s : UnpackedFloat.Sign) :
    UnpackedFloat.normalize spec m e s ≠ .notANumber := by
  unfold UnpackedFloat.normalize
  split
  · exact round_ne _ _ _ _ _
  · simp
  · exact round_ne _ _ _ _ _

theorem powersOfTen_finite :
    ∀ x ∈ Float.exactlyRepresentablePowersOfTen.toList, isFinitePart x.toModel.unpack = true := by
  decide

theorem ofScientific_isNaN (m : Nat) (negative : Bool) (e : Nat) : (Float.ofScientific m negative e).isNaN = false := by
  unfold Float.ofScientific
  split
  · next h =>
    have hunpack : m.toUInt64.toFloat.toModel.unpack ≠ .notANumber :=
      unpack_ne (pack_isNaN (normalize_ne _ _ _ _))
    have hpower := powersOfTen_finite _ (Array.getElem_mem_toList (Nat.lt_succ_of_le h.2))
    split
    · exact pack_isNaN (div_ne hunpack hpower)
    · exact pack_isNaN (mul_ne hunpack hpower)
  · exact pack_isNaN (ofScientific_ne _ _ _)

theorem nearest_isNaN (digits : Nat) (exponent : Int) : (nearest digits exponent).isNaN = false := by
  unfold nearest
  dsimp only
  split
  · decide
  · split
    · decide
    · exact ofScientific_isNaN _ _ _

theorem neg_isNaN {x : Float} (h : x.isNaN = false) : (-x).isNaN = false := by
  have hx := unpack_ne h
  refine pack_isNaN ?_
  cases hu : x.toModel.unpack with
  | notANumber => exact absurd hu hx
  | _ => simp [UnpackedFloat.neg]

end FactFold.Decimal
