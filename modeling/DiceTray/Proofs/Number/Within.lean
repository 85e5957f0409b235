import DiceTray.Json.Numeral
import DiceTray.Proofs.Number.Zero

namespace DiceTray

open Float.Model UnpackedFloat

namespace Double

inductive Within (bound : Int) : UnpackedFloat → Prop where
  | zero (s : Sign) : Within bound (.zero s)
  | finite {s : Sign} {m : Nat} {e : Int} {hm : 0 < m} (hle : e ≤ bound) :
      Within bound (.finite s m e hm)

variable {bound : Int} {u : UnpackedFloat}

theorem Within.mono {bound' : Int} (h : Within bound u) (hle : bound ≤ bound') :
    Within bound' u := by
  cases h with
  | zero s => exact .zero s
  | finite he => exact .finite (Int.le_trans he hle)

theorem Within.isInf_eq_false (h : Within bound u) : u.isInf = false := by
  cases h <;> rfl

theorem log2_le_of_lt {n k : Nat} (h : n < 2 ^ (k + 1)) : n.log2 ≤ k := by
  rcases Nat.eq_zero_or_pos n with rfl | hn
  · exact Nat.zero_le k
  · exact Nat.lt_succ_iff.mp ((Nat.log2_lt (Nat.ne_of_gt hn)).mpr h)

theorem roundedMantissa_le (em : ExtendedMantissa) : em.roundedMantissa ≤ em.mantissa + 1 := by
  rcases em with ⟨m, _ | _, _ | _⟩
  · exact Nat.le_succ m
  · exact Nat.le_succ m
  · exact Nat.add_le_add_left (Nat.le_of_lt_succ (Nat.mod_lt m (by decide))) m
  · exact Nat.le_refl _

theorem exponent_shiftToTargetExponent (m : Nat) (e : Int) (a : Accuracy) :
    (shiftToTargetExponent .binary64 m e a).2 = max e (max (m.log2 + 1 + e - 53) (-1074)) := by
  change e + ((max (m.log2 + 1 + e - 53) (-1074) - e).toNat : Int) = _
  omega

theorem mantissa_shiftToTargetExponent_lt (m : Nat) (e : Int) (a : Accuracy) :
    (shiftToTargetExponent .binary64 m e a).1.mantissa < 2 ^ 53 := by
  rw [mantissa_shiftToTargetExponent, Nat.div_lt_iff_lt_mul (Nat.two_pow_pos _), ← Nat.pow_add]
  refine Nat.lt_of_lt_of_le Nat.lt_log2_self (Nat.pow_le_pow_right (by decide) ?_)
  omega

theorem within_roundWithAccuracy (s : Sign) (m : Nat) (e : Int) (a : Accuracy) :
    Within (max e (max (m.log2 + e - 52) (-1074)) + 1)
      (roundWithAccuracy .binary64 s m e a) := by
  have hexponent := exponent_shiftToTargetExponent m e a
  have hmantissa := mantissa_shiftToTargetExponent_lt m e a
  have hrounded := roundedMantissa_le (shiftToTargetExponent .binary64 m e a).1
  -- the rounding may carry into a 54th bit, which the second shift takes off again
  have hbits : (shiftToTargetExponent .binary64 m e a).1.roundedMantissa.log2 ≤ 53 := by
    refine log2_le_of_lt (Nat.lt_of_le_of_lt hrounded ?_)
    rw [Nat.pow_succ]
    omega
  unfold roundWithAccuracy
  simp only
  split
  · exact .zero s
  · refine .finite ?_
    rw [exponent_shiftToTargetExponent]
    omega

theorem within_ofUInt64 (n : UInt64) :
    Within 12 (UnpackedFloat.ofUInt64 .binary64 n) := by
  unfold UnpackedFloat.ofUInt64 UnpackedFloat.ofNat UnpackedFloat.ofInt UnpackedFloat.normalize
  split
  case h_1 hn =>
    have := Int.compare_eq_lt.mp hn
    omega
  case h_2 => exact .zero .positive
  case h_3 =>
    unfold UnpackedFloat.round
    simp only [decreaseExponent, Int.toNat_natCast]
    generalize ((0 : Int) - Format.binary64.targetExponent (totalExponent n.toNat 0)).toNat = k
    refine (within_roundWithAccuracy .positive _ _ .exact).mono ?_
    have hlog : (n.toNat <<< k).log2 ≤ 63 + k := by
      refine log2_le_of_lt ?_
      rw [Nat.shiftLeft_eq, show 63 + k + 1 = 64 + k by omega, Nat.pow_add]
      exact Nat.mul_lt_mul_of_pos_right n.toNat_lt (Nat.two_pow_pos k)
    omega

theorem within_unpack_packComponents (s : Sign) (exponent : BitVec 11) (mantissa : BitVec 52)
    (h : exponent ≠ -1#11) :
    Within (max ((exponent.toNat : Int) - 1075) (-1074))
      (UnpackedFloat.unpack .binary64 (packComponents .binary64 s exponent mantissa)) := by
  simp only [UnpackedFloat.unpack, unpackExponent_packComponents, unpackMantissa_packComponents]
  rw [if_neg h]
  split
  case isTrue hzero =>
    split
    · exact .zero _
    · refine .finite ?_
      rw [hzero]
      decide
  case isFalse =>
    refine .finite ?_
    change (exponent.toNat : Int) - 1075 ≤ _
    omega

theorem within_unpack_pack (h : Within bound u) (hbound : -1074 ≤ bound) (hroom : bound ≤ 971) :
    Within bound (UnpackedFloat.unpack .binary64 (UnpackedFloat.pack .binary64 u)) := by
  have hle : max (((0 : Nat) : Int) - 1075) (-1074) ≤ bound := by omega
  cases h with
  | zero s => exact (within_unpack_packComponents s 0 0 (by decide)).mono hle
  | @finite s m e hm he =>
      have hexponent : (e + 1023 + 52).toNat ≤ 2046 := by omega
      simp only [UnpackedFloat.pack]
      change Within bound (UnpackedFloat.unpack .binary64
        (if 2 ^ 11 ≤ (e + 1023 + 52).toNat + 1 then _ else _))
      rw [if_neg (by omega)]
      split
      · have htoNat : (BitVec.ofNat 11 (e + 1023 + 52).toNat).toNat = (e + 1023 + 52).toNat :=
          Nat.mod_eq_of_lt (by omega)
        refine (within_unpack_packComponents s _ _ fun hfull => ?_).mono ?_
        · have hval := congrArg BitVec.toNat hfull
          change (BitVec.ofNat 11 (e + 1023 + 52).toNat).toNat = 2047 at hval
          omega
        · change max (((BitVec.ofNat 11 (e + 1023 + 52).toNat).toNat : Int) - 1075) (-1074) ≤ bound
          omega
      · exact (within_unpack_packComponents s 0 _ (by decide)).mono hle

theorem tenTo_zero :
    (Json.tenTo 0).toModel.unpack = .finite .positive (2 ^ 52) (-52) (by decide) := by
  rfl

theorem within_toFloat (n : UInt64) : Within 12 n.toFloat.toModel.unpack :=
  within_unpack_pack (within_ofUInt64 n) (by decide) (by decide)

theorem within_mul_finite (hu : Within bound u) (hp : Proper u) (s : Sign) {m : Nat} (hm : 0 < m)
    (e : Int) {k : Nat} (hlt : m < 2 ^ (k + 1)) :
    Within (max (bound + e + (k + 1)) (-1074) + 1)
      (UnpackedFloat.mul .binary64 u (.finite s m e hm)) := by
  cases hu with
  | zero s' => exact .zero _
  | @finite s' m' e' hm' he =>
      cases hp with
      | finite hlt' hle =>
          refine (within_roundWithAccuracy _ _ _ .exact).mono ?_
          have hlog : (m' * m).log2 ≤ 53 + k := by
            refine log2_le_of_lt ?_
            rw [Nat.add_assoc, Nat.pow_add]
            exact Nat.mul_lt_mul'' hlt' hlt
          omega

theorem isInf_toFloat_mul_tenTo_zero (n : UInt64) : (n.toFloat * Json.tenTo 0).isInf = false := by
  have hp := proper_unpack n.toFloat.toModel.toBits.toBitVec
  have hmul := within_mul_finite (within_toFloat n) hp .positive (Nat.two_pow_pos 52) (-52)
    (Nat.pow_lt_pow_right (by decide) (Nat.lt_succ_self 52))
  rw [← tenTo_zero] at hmul
  exact (within_unpack_pack hmul (by decide) (by decide)).isInf_eq_false

end Double

end DiceTray
