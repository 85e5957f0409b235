import DiceTray.Proofs.Number.Exact
import Mathlib

namespace DiceTray

open Float.Model UnpackedFloat

namespace Double

theorem mantissa_shiftRight (em : ExtendedMantissa) (k : Nat) :
    (em >>> k).mantissa = em.mantissa / 2 ^ k := by
  induction k with
  | zero => exact (Nat.div_one em.mantissa).symm
  | succ k ih =>
      change (em >>> k).mantissa / 2 = _
      rw [ih, Nat.div_div_eq_div_mul, Nat.pow_succ]

theorem mantissa_le_roundedMantissa (em : ExtendedMantissa) :
    em.mantissa ≤ em.roundedMantissa := by
  rcases em with ⟨m, _ | _, _ | _⟩
  · exact Nat.le_refl m
  · exact Nat.le_refl m
  · exact Nat.le_add_right m _
  · exact Nat.le_add_right m 1

theorem mantissa_shiftToTargetExponent (m : Nat) (e : Int) (a : Accuracy) :
    (shiftToTargetExponent .binary64 m e a).1.mantissa =
      m / 2 ^ (max (m.log2 + 1 + e - 53) (-1074) - e).toNat := by
  have hm : (ExtendedMantissa.ofMantissaAndAccuracy m a).mantissa = m := by
    rcases a with _ | _ | _ | _ <;> rfl
  exact (mantissa_shiftRight _ _).trans (by rw [hm]; rfl)

theorem shiftToTargetExponent_bounds {m : Nat} (hm : 0 < m) {e : Int} (he : -1074 ≤ e)
    (a : Accuracy) :
    let shifted := shiftToTargetExponent .binary64 m e a
    0 < shifted.1.mantissa ∧ shifted.1.mantissa < 2 ^ 53 ∧ -1074 ≤ shifted.2 := by
  intro shifted
  have hexp : -1074 ≤ shifted.2 := by
    change -1074 ≤ e + ((_ : Nat) : Int)
    omega
  rw [mantissa_shiftToTargetExponent]
  have hle := Nat.log2_self_le (Nat.ne_of_gt hm)
  have hlt := Nat.lt_log2_self (n := m)
  refine ⟨?_, ?_, hexp⟩
  · refine Nat.div_pos (Nat.le_trans (Nat.pow_le_pow_right (by decide) ?_) hle)
      (Nat.two_pow_pos _)
    omega
  · rw [Nat.div_lt_iff_lt_mul (Nat.two_pow_pos _), ← Nat.pow_add]
    refine Nat.lt_of_lt_of_le hlt (Nat.pow_le_pow_right (by decide) ?_)
    omega

/-- What operations on doubles result in. A finite result may still be too large for a double, but
none is so small that packing makes a zero of it. -/
inductive Proper : UnpackedFloat → Prop where
  | notANumber : Proper .notANumber
  | infinity (s : Sign) : Proper (.infinity s)
  | zero (s : Sign) : Proper (.zero s)
  | finite {s : Sign} {m : Nat} {e : Int} {hm : 0 < m} (hlt : m < 2 ^ 53) (hle : -1074 ≤ e) :
      Proper (.finite s m e hm)

variable {u v : UnpackedFloat} {m : Nat} {e : Int}

theorem proper_roundWithAccuracy (s : Sign) (hm : 0 < m) (he : -1074 ≤ e) (a : Accuracy) :
    Proper (roundWithAccuracy .binary64 s m e a) ∧
      ∀ s', roundWithAccuracy .binary64 s m e a ≠ .zero s' := by
  obtain ⟨hpos, -, hexp⟩ := shiftToTargetExponent_bounds hm he a
  have hround := Nat.lt_of_lt_of_le hpos (mantissa_le_roundedMantissa _)
  obtain ⟨hpos', hlt, hexp'⟩ := shiftToTargetExponent_bounds hround hexp .exact
  unfold roundWithAccuracy
  simp only
  rw [dif_neg (Nat.ne_of_gt hpos')]
  exact ⟨.finite hlt hexp', fun s' hs => by cases hs⟩

theorem proper_round (s : Sign) (hm : 0 < m) (he : -1074 ≤ e) :
    Proper (round .binary64 s m e) ∧ ∀ s', round .binary64 s m e ≠ .zero s' := by
  refine proper_roundWithAccuracy s ?_ ?_ .exact
  · rw [Nat.shiftLeft_eq]
    exact Nat.mul_pos hm (Nat.two_pow_pos _)
  · change -1074 ≤ e - ((e - max _ (-1074)).toNat : Int)
    omega

theorem proper_normalize (n : Int) (he : -1074 ≤ e) (s : Sign) :
    Proper (UnpackedFloat.normalize .binary64 n e s) ∧
      ∀ s', UnpackedFloat.normalize .binary64 n e s = .zero s' → n = 0 ∧ s = s' := by
  unfold UnpackedFloat.normalize
  split
  case h_1 hn =>
    have hneg : 0 < (-n).toNat := by
      have := Int.compare_eq_lt.mp hn
      omega
    obtain ⟨hp, hz⟩ := proper_round .negative hneg he
    exact ⟨hp, fun s' hs => absurd hs (hz s')⟩
  case h_2 hn =>
    exact ⟨.zero s, fun s' hs => ⟨Int.compare_eq_eq.mp hn, by cases hs; rfl⟩⟩
  case h_3 hn =>
    have hpos : 0 < n.toNat := by
      have := Int.compare_eq_gt.mp hn
      omega
    obtain ⟨hp, hz⟩ := proper_round .positive hpos he
    exact ⟨hp, fun s' hs => absurd hs (hz s')⟩

theorem proper_unpack (b : BitVec Format.binary64.numBits) :
    Proper (UnpackedFloat.unpack .binary64 b) := by
  simp only [UnpackedFloat.unpack]
  split
  case isTrue =>
    split
    · exact .infinity _
    · exact .notANumber
  case isFalse =>
    split
    case isTrue hexp =>
      split
      case isTrue => exact .zero _
      case isFalse =>
        have hlt := (@unpackMantissa .binary64 b).isLt
        exact .finite (Nat.lt_trans hlt (by decide)) (by rw [hexp]; decide)
    case isFalse hexp =>
      refine .finite (1#1 ++ @unpackMantissa .binary64 b).isLt ?_
      have hpos : 0 < (@unpackExponent .binary64 b).toNat := by
        rw [BitVec.toNat_pos, BitVec.pos_iff_ne_zero]
        exact hexp
      change -1074 ≤ ((@unpackExponent .binary64 b).toNat : Int) - 1075
      omega

theorem pack_finite_ne_packedZero {s : Sign} {hm : 0 < m} (hlt : m < 2 ^ 53) (hle : -1074 ≤ e)
    (s' : Sign) : UnpackedFloat.pack .binary64 (.finite s m e hm) ≠ packedZero .binary64 s' := by
  intro hpack
  simp only [UnpackedFloat.pack] at hpack
  split at hpack
  case isTrue =>
    have hexp := congrArg unpackExponent hpack
    rw [packedInfinity, packedZero, unpackExponent_packComponents,
      unpackExponent_packComponents] at hexp
    exact absurd hexp (by decide)
  case isFalse hsmall =>
    split at hpack
    case isTrue =>
      have hexp := congrArg BitVec.toNat (congrArg unpackExponent hpack)
      rw [packedZero, unpackExponent_packComponents, unpackExponent_packComponents,
        BitVec.toNat_ofNat] at hexp
      change (e + 1023 + 52).toNat % 2048 = 0 at hexp
      change ¬ 2048 ≤ (e + 1023 + 52).toNat + 1 at hsmall
      omega
    case isFalse hlog =>
      have hmant := congrArg BitVec.toNat (congrArg unpackMantissa hpack)
      rw [packedZero, unpackMantissa_packComponents, unpackMantissa_packComponents,
        BitVec.toNat_ofNat] at hmant
      change m % 2 ^ 52 = 0 at hmant
      change ¬ m.log2 + 1 = 53 at hlog
      have hbits := (Nat.log2_lt (Nat.ne_of_gt hm)).mpr hlt
      have hless : m < 2 ^ 52 := (Nat.log2_lt (Nat.ne_of_gt hm)).mp (by omega)
      rw [Nat.mod_eq_of_lt hless] at hmant
      omega

theorem Proper.eq_zero_of_pack_eq (hu : Proper u) {s : Sign}
    (h : UnpackedFloat.pack .binary64 u = packedZero .binary64 s) : u = .zero s := by
  cases hu with
  | finite hlt hle => exact absurd h (pack_finite_ne_packedZero hlt hle s)
  | zero s' =>
      have hunpack := congrArg (UnpackedFloat.unpack .binary64) h
      change UnpackedFloat.unpack _ (packedZero .binary64 s') = _ at hunpack
      rwa [unpack_packedZero, unpack_packedZero] at hunpack
  | infinity s' => cases s <;> cases s' <;> exact absurd h (by decide)
  | notANumber => cases s <;> exact absurd h (by decide)

theorem proper_add (hu : Proper u) (hv : Proper v) :
    Proper (add .binary64 u v) ∧
      (add .binary64 u v = .zero .negative → u = .zero .negative) := by
  cases hu with
  | notANumber => exact ⟨by cases v <;> exact .notANumber, by cases v <;> exact nofun⟩
  | infinity s =>
      cases hv with
      | notANumber => exact ⟨.notANumber, nofun⟩
      | infinity s' =>
          change Proper (if _ then _ else _) ∧ ((if _ then _ else _) = _ → _)
          split
          · exact ⟨.infinity s, nofun⟩
          · exact ⟨.notANumber, nofun⟩
      | zero | finite => exact ⟨.infinity s, nofun⟩
  | zero s =>
      cases hv with
      | notANumber => exact ⟨.notANumber, nofun⟩
      | infinity s' => exact ⟨.infinity s', nofun⟩
      | zero s' =>
          change Proper (if _ then _ else _) ∧ ((if _ then _ else _) = _ → _)
          split
          · exact ⟨.zero s, id⟩
          · exact ⟨.zero .positive, nofun⟩
      | finite hlt hle => exact ⟨.finite hlt hle, nofun⟩
  | finite hlt hle =>
      cases hv with
      | notANumber => exact ⟨.notANumber, nofun⟩
      | infinity s' => exact ⟨.infinity s', nofun⟩
      | zero => exact ⟨.finite hlt hle, nofun⟩
      | finite _ hle' =>
          obtain ⟨hp, hz⟩ := proper_normalize _ (Int.le_min.mpr ⟨hle, hle'⟩) .positive
          exact ⟨hp, fun h => by cases (hz .negative h).2⟩

variable {x : Float}

theorem eq_neg_zero_iff : x = -0.0 ↔ x.toModel.unpack = .zero .negative := by
  refine ⟨fun h => by rw [h]; rfl, fun h => ?_⟩
  have hbits := (unpack_eq_zero_iff_of_valid x.toModel.valid).mp h
  exact Float.toBits_inj.mp (UInt64.toBitVec_inj.mp hbits)

theorem Proper.eq_zero_of_unpack (hu : Proper u) (h : x.toModel = .pack u) {s : Sign}
    (hx : x.toModel.unpack = .zero s) : u = .zero s := by
  refine hu.eq_zero_of_pack_eq ?_
  have hbits := (unpack_eq_zero_iff_of_valid x.toModel.valid).mp hx
  rw [h] at hbits
  exact hbits

theorem add_ne_neg_zero (hx : x ≠ -0.0) (y : Float) : x + y ≠ -0.0 := by
  obtain ⟨hp, hz⟩ := proper_add (proper_unpack x.toModel.toBits.toBitVec)
    (proper_unpack y.toModel.toBits.toBitVec)
  intro hsum
  have hadd := hp.eq_zero_of_unpack (x := x + y) rfl (eq_neg_zero_iff.mp hsum)
  exact hx (eq_neg_zero_iff.mpr (hz hadd))

theorem add_zero_of_ne_neg_zero (hx : x ≠ -0.0) : x + 0.0 = x := by
  have hsum : add .binary64 x.toModel.unpack (.zero .positive) = x.toModel.unpack := by
    cases hu : x.toModel.unpack with
    | zero s =>
        cases s with
        | negative => exact absurd (eq_neg_zero_iff.mpr hu) hx
        | positive => rfl
    | notANumber | infinity | finite => rfl
  have hbits : UnpackedFloat.pack .binary64 (add .binary64 x.toModel.unpack (.zero .positive)) =
      x.toModel.toBits.toBitVec := by
    rw [hsum]
    exact pack_unpack_of_valid x.toModel.valid
  exact Float.toBits_inj.mp (UInt64.toBitVec_inj.mp hbits)

theorem eq_zero_of_unpack_toFloat {n : UInt64} {s : Sign}
    (h : n.toFloat.toModel.unpack = .zero s) : n = 0 ∧ s = .positive := by
  obtain ⟨hp, hz⟩ := proper_normalize n.toNat (by decide : (-1074 : Int) ≤ 0) .positive
  obtain ⟨hn, hs⟩ := hz s (hp.eq_zero_of_unpack (x := n.toFloat) rfl h)
  exact ⟨UInt64.toNat_inj.mp (by exact_mod_cast hn), hs.symm⟩

theorem proper_neg (hu : Proper u) : Proper u.neg := by
  cases hu with
  | notANumber => exact .notANumber
  | infinity s => exact .infinity (-s)
  | zero s => exact .zero (-s)
  | finite hlt hle => exact .finite hlt hle

theorem toFloat_ne_neg_zero (n : UInt64) : n.toFloat ≠ -0.0 := by
  intro hn
  cases (eq_zero_of_unpack_toFloat (eq_neg_zero_iff.mp hn)).2

theorem neg_toFloat_ne_neg_zero {n : UInt64} (hn : n ≠ 0) : -n.toFloat ≠ -0.0 := by
  intro hneg
  have hp := proper_neg (proper_unpack n.toFloat.toModel.toBits.toBitVec)
  have hzero := hp.eq_zero_of_unpack (x := -n.toFloat) rfl (eq_neg_zero_iff.mp hneg)
  cases hu : n.toFloat.toModel.unpack with
  | zero s => exact hn (eq_zero_of_unpack_toFloat hu).1
  | notANumber | infinity | finite =>
      change n.toFloat.toModel.unpack.neg = _ at hzero
      rw [hu] at hzero
      cases hzero

end Double

theorem toDouble_ne_neg_zero (n : Int64) : toDouble n ≠ -0.0 := by
  unfold toDouble
  simp only
  split
  case isTrue hneg =>
    refine Double.neg_toFloat_ne_neg_zero fun hzero => ?_
    have hn := congrArg UInt64.toNat hzero
    have hlt := Int64.lt_iff_toInt_lt.mp hneg
    have hle := n.le_toInt
    rw [Nat.toUInt64_eq, UInt64.toNat_ofNat', UInt64.toNat_zero] at hn
    rw [Int64.toInt_zero] at hlt
    omega
  case isFalse => exact Double.toFloat_ne_neg_zero _

namespace Number

/-- No zero with a minus sign: adding zero to that one takes the sign away. -/
def Settled : Number → Prop
  | .int _ => True
  | .real x => x ≠ -0.0

theorem settled_exactly (exact : Option Int) {x : Float} (h : x ≠ -0.0) :
    (exactly exact x).Settled := by
  unfold exactly
  split
  · trivial
  · exact h

theorem settled_add_int {a : Number} (h : a.Settled) (n : Int64) : (add a (.int n)).Settled := by
  cases a with
  | int m => exact settled_exactly _ (Double.add_ne_neg_zero (toDouble_ne_neg_zero m) _)
  | real x => exact Double.add_ne_neg_zero h _

theorem add_zero_of_settled {a : Number} (h : a.Settled) : add a (.int 0) = a := by
  cases a with
  | int n => exact add_int_zero n
  | real x => exact congrArg Number.real (Double.add_zero_of_ne_neg_zero h)

end Number

end DiceTray
