import DiceTray.Proofs.Number.Within

namespace DiceTray

open Float.Model UnpackedFloat

namespace Double

variable {bound : Int} {u v : UnpackedFloat}

theorem Within.isFinite (h : Within bound u) : u.isFinite = true := by
  cases h <;> rfl

theorem Within.neg (h : Within bound u) : Within bound u.neg := by
  cases h with
  | zero s => exact .zero _
  | finite hle => exact .finite hle

theorem within_unpack {b : BitVec Format.binary64.numBits}
    (h : (UnpackedFloat.unpack .binary64 b).isFinite = true) :
    Within 971 (UnpackedFloat.unpack .binary64 b) := by
  simp only [UnpackedFloat.unpack] at h ⊢
  split at h
  case isTrue => split at h <;> cases h
  case isFalse hfull =>
    have hne : (@unpackExponent .binary64 b).toNat ≠ 2047 := fun he =>
      hfull (BitVec.eq_of_toNat_eq he)
    have hlt : (@unpackExponent .binary64 b).toNat < 2048 := (@unpackExponent .binary64 b).isLt
    rw [if_neg hfull]
    split
    case isTrue hzero =>
      split
      · exact .zero _
      · refine .finite ?_
        rw [hzero]
        decide
    case isFalse =>
      refine .finite ?_
      change ((@unpackExponent .binary64 b).toNat : Int) - 1075 ≤ 971
      omega

theorem within_of_isFinite {x : Float} (h : x.isFinite = true) : Within 971 x.toModel.unpack :=
  within_unpack h

theorem isFinite_neg {x : Float} (h : x.isFinite = true) : (-x).isFinite = true :=
  (within_unpack_pack (within_of_isFinite h).neg (by decide) (by decide)).isFinite

theorem isFinite_withSign {x : Float} (h : x.isFinite = true) (negative : Bool) :
    (Decimal.withSign negative x).isFinite = true := by
  cases negative with
  | false => exact h
  | true => exact isFinite_neg h

theorem unpack_packedInfinity (s : Sign) :
    ∃ s', UnpackedFloat.unpack .binary64 (packedInfinity .binary64 s) = .infinity s' := by
  simp only [UnpackedFloat.unpack, packedInfinity, unpackExponent_packComponents,
    unpackMantissa_packComponents]
  exact ⟨_, rfl⟩

theorem pack_of_lt (s : Sign) {m : Nat} (hm : 0 < m) {e : Int} (h : 971 < e) :
    UnpackedFloat.pack .binary64 (.finite s m e hm) = packedInfinity .binary64 s := by
  simp only [UnpackedFloat.pack]
  refine if_pos ?_
  change 2 ^ 11 ≤ (e + 1023 + 52).toNat + 1
  omega

theorem isFinite_unpack_pack (h : Within bound u)
    (hinf : (UnpackedFloat.unpack .binary64 (UnpackedFloat.pack .binary64 u)).isInf = false) :
    (UnpackedFloat.unpack .binary64 (UnpackedFloat.pack .binary64 u)).isFinite = true := by
  cases h with
  | zero s =>
      have hzero : Within 0 (.zero s) := .zero s
      exact (within_unpack_pack hzero (by decide) (by decide)).isFinite
  | @finite s m e hm he =>
      rcases Int.lt_or_le 971 e with hlt | hle
      · obtain ⟨s', hs'⟩ := unpack_packedInfinity s
        rw [pack_of_lt s hm hlt, hs'] at hinf
        cases hinf
      · have hbound : Within (max e (-1074)) (.finite s m e hm) := .finite (Int.le_max_left _ _)
        exact (within_unpack_pack hbound (Int.le_max_right _ _) (by omega)).isFinite

theorem exists_within_mul {bound' : Int} (hu : Within bound u) (hv : Within bound' v) :
    ∃ bound, Within bound (UnpackedFloat.mul .binary64 u v) := by
  cases hu with
  | zero s => cases hv <;> exact ⟨0, .zero _⟩
  | finite _ =>
      cases hv with
      | zero s => exact ⟨0, .zero _⟩
      | finite _ => exact ⟨_, within_roundWithAccuracy _ _ _ .exact⟩

theorem isFinite_mul {x y : Float} (hx : x.isFinite = true) (hy : y.isFinite = true)
    (h : (x * y).isInf = false) : (x * y).isFinite = true := by
  obtain ⟨bound, hmul⟩ := exists_within_mul (within_of_isFinite hx) (within_of_isFinite hy)
  exact isFinite_unpack_pack hmul h

theorem divCore_bounds {m₁ : Nat} (e₁ : Int) (m₂ : Nat) (e₂ : Int) (hlt : m₁ < 2 ^ 53) :
    let q := divCore .binary64 m₁ e₁ m₂ e₂
    q.2.1 ≤ e₁ - e₂ ∧ (q.1.log2 : Int) + q.2.1 ≤ e₁ - e₂ + 52 := by
  intro q
  have hle : q.2.1 ≤ e₁ - e₂ := Int.min_le_left _ _
  have hlog : q.1.log2 ≤ 52 + (e₁ - e₂ - q.2.1).toNat := by
    refine log2_le_of_lt (Nat.lt_of_le_of_lt (Nat.div_le_self _ m₂) ?_)
    rw [Nat.shiftLeft_eq, Nat.add_right_comm, Nat.pow_add]
    exact Nat.mul_lt_mul_of_pos_right hlt (Nat.two_pow_pos _)
  exact ⟨hle, by omega⟩

theorem within_div_finite (s₁ s₂ : Sign) {m₁ m₂ : Nat} (hm₁ : 0 < m₁) (hm₂ : 0 < m₂) (e₁ e₂ : Int)
    (hlt : m₁ < 2 ^ 53) :
    Within (max (e₁ - e₂) (-1074) + 1)
      (UnpackedFloat.div .binary64 (.finite s₁ m₁ e₁ hm₁) (.finite s₂ m₂ e₂ hm₂)) := by
  obtain ⟨hle, hlog⟩ := divCore_bounds e₁ m₂ e₂ hlt
  have hround := within_roundWithAccuracy (s₁ / s₂) (divCore .binary64 m₁ e₁ m₂ e₂).1
    (divCore .binary64 m₁ e₁ m₂ e₂).2.1 (divCore .binary64 m₁ e₁ m₂ e₂).2.2
  exact hround.mono (by omega)

def coarse : UnpackedFloat → Bool
  | .infinity _ => true
  | .finite _ _ e _ => decide (-52 ≤ e)
  | _ => false

theorem within_div (h : Within bound u) (hp : Proper u) (hv : coarse v = true) :
    Within (max (bound + 52) (-1074) + 1) (UnpackedFloat.div .binary64 u v) := by
  cases v with
  | notANumber => cases hv
  | zero s => cases hv
  | infinity s =>
      cases h with
      | zero _ => exact .zero _
      | finite _ => exact .zero _
  | finite s₂ m₂ e₂ hm₂ =>
      have he₂ : -52 ≤ e₂ := of_decide_eq_true hv
      cases h with
      | zero s => exact .zero _
      | @finite s₁ m₁ e₁ hm₁ he₁ =>
          cases hp with
          | finite hlt _ => exact (within_div_finite s₁ s₂ hm₁ hm₂ e₁ e₂ hlt).mono (by omega)

theorem shiftToTargetExponent_normal {m : Nat} {e : Int} (hlog : 52 ≤ m.log2)
    (he : -1022 ≤ m.log2 + e) (a : Accuracy) :
    2 ^ 52 ≤ (shiftToTargetExponent .binary64 m e a).1.mantissa ∧
      (shiftToTargetExponent .binary64 m e a).2 = m.log2 + e - 52 := by
  rw [exponent_shiftToTargetExponent, mantissa_shiftToTargetExponent]
  have hshift : (max (m.log2 + 1 + e - 53) (-1074) - e).toNat = m.log2 - 52 := by omega
  refine ⟨?_, by omega⟩
  have hm : m ≠ 0 := by
    rintro rfl
    exact absurd hlog (by decide)
  rw [hshift, Nat.le_div_iff_mul_le (Nat.two_pow_pos _), ← Nat.pow_add, Nat.add_sub_cancel' hlog]
  exact Nat.log2_self_le hm

theorem roundedMantissa_shiftToTargetExponent_bounds {m : Nat} {e : Int} (hlog : 52 ≤ m.log2)
    (he : -1022 ≤ m.log2 + e) (a : Accuracy) :
    2 ^ 52 ≤ (shiftToTargetExponent .binary64 m e a).1.roundedMantissa ∧
      (shiftToTargetExponent .binary64 m e a).1.roundedMantissa ≤ 2 ^ 53 := by
  have hlow := (shiftToTargetExponent_normal hlog he a).1
  have hhigh := mantissa_shiftToTargetExponent_lt m e a
  exact ⟨Nat.le_trans hlow (mantissa_le_roundedMantissa _),
    Nat.le_trans (roundedMantissa_le _) hhigh⟩

theorem roundWithAccuracy_eq (s : Sign) (m : Nat) (e : Int) (a : Accuracy) :
    let first := shiftToTargetExponent .binary64 m e a
    let second := shiftToTargetExponent .binary64 first.1.roundedMantissa first.2 .exact
    ∀ hm : 0 < second.1.mantissa,
      roundWithAccuracy .binary64 s m e a = .finite s second.1.mantissa second.2 hm := by
  intro first second hm
  exact dif_neg (Nat.ne_of_gt hm)

theorem exists_of_roundWithAccuracy {m : Nat} {e : Int} (hlog : 52 ≤ m.log2)
    (he : -1022 ≤ m.log2 + e) (s : Sign) (a : Accuracy) :
    ∃ m' e' hm', roundWithAccuracy .binary64 s m e a = .finite s m' e' hm' ∧
      2 ^ 52 ≤ m' ∧ m' < 2 ^ 53 ∧ m.log2 + e - 52 ≤ e' := by
  have he₁ := (shiftToTargetExponent_normal hlog he a).2
  have hround := (roundedMantissa_shiftToTargetExponent_bounds hlog he a).1
  have hlog₁ := (Nat.le_log2 (by omega)).mpr hround
  have hexponent : -1022 ≤ ((shiftToTargetExponent .binary64 m e a).1.roundedMantissa.log2 : Int) +
      (shiftToTargetExponent .binary64 m e a).2 := by omega
  obtain ⟨hm₂, he₂⟩ := shiftToTargetExponent_normal hlog₁ hexponent .exact
  have hpos := Nat.lt_of_lt_of_le (Nat.two_pow_pos 52) hm₂
  refine ⟨_, _, hpos, roundWithAccuracy_eq s m e a hpos, hm₂,
    mantissa_shiftToTargetExponent_lt _ _ _, ?_⟩
  exact Int.le_trans (by omega) (Int.le_of_eq he₂.symm)

theorem coarse_unpack_packComponents (s : Sign) {exponent : BitVec 11} (mantissa : BitVec 52)
    (hlow : 1023 ≤ exponent.toNat) (hhigh : exponent.toNat < 2047) :
    coarse (UnpackedFloat.unpack .binary64 (packComponents .binary64 s exponent mantissa)) =
      true := by
  have hzero : exponent ≠ 0#11 := by
    rintro rfl
    exact absurd hlow (by decide)
  have hfull : exponent ≠ -1#11 := by
    rintro rfl
    exact absurd hhigh (by decide)
  simp only [UnpackedFloat.unpack, unpackExponent_packComponents, unpackMantissa_packComponents]
  rw [if_neg hfull, if_neg hzero]
  refine decide_eq_true ?_
  change -52 ≤ (exponent.toNat : Int) - 1075
  omega

theorem pack_of_normal (s : Sign) {m : Nat} (hm : 0 < m) {e : Int} (hlow : 2 ^ 52 ≤ m)
    (hhigh : m < 2 ^ 53) (he : e ≤ 971) :
    UnpackedFloat.pack .binary64 (.finite s m e hm) =
      packComponents .binary64 s (BitVec.ofNat 11 (e + 1023 + 52).toNat) (BitVec.ofNat 52 m) := by
  have hbits : m.log2 + 1 = Format.binary64.mantissaBits := by
    have hge := (Nat.le_log2 (Nat.ne_of_gt hm)).mpr hlow
    have hle := log2_le_of_lt hhigh
    change m.log2 + 1 = 53
    omega
  simp only [UnpackedFloat.pack]
  rw [if_pos hbits]
  refine if_neg ?_
  change ¬ 2 ^ 11 ≤ (e + 1023 + 52).toNat + 1
  omega

theorem coarse_unpack_pack {s : Sign} {m : Nat} {e : Int} {hm : 0 < m} (hlow : 2 ^ 52 ≤ m)
    (hhigh : m < 2 ^ 53) (he : -52 ≤ e) :
    coarse (UnpackedFloat.unpack .binary64 (UnpackedFloat.pack .binary64 (.finite s m e hm))) =
      true := by
  rcases Int.lt_or_le 971 e with hlt | hle
  · obtain ⟨s', hs'⟩ := unpack_packedInfinity s
    rw [pack_of_lt s hm hlt, hs']
    rfl
  · have hexponent : (BitVec.ofNat 11 (e + 1023 + 52).toNat).toNat = (e + 1023 + 52).toNat :=
      Nat.mod_eq_of_lt (by omega)
    rw [pack_of_normal s hm hlow hhigh hle]
    exact coarse_unpack_packComponents s _ (by omega) (by omega)

theorem unpack_tenTo {k : Nat} (hlow : 22 < k) (hhigh : k ≤ Json.maxPower) :
    (Json.tenTo k).toModel.unpack = UnpackedFloat.unpack .binary64 (UnpackedFloat.pack .binary64
      (roundWithAccuracy .binary64 .positive (2 ^ 53 * 10 ^ k) (-53) .exact)) := by
  have hhigh : k ≤ 308 := hhigh
  have hscientific : UnpackedFloat.ofScientific .binary64 1 (Int.ofNat k) =
      roundWithAccuracy .binary64 .positive (2 ^ 53 * 10 ^ k) (-53) .exact := by
    unfold UnpackedFloat.ofScientific
    have hsign : 0 ≤ Int.ofNat k := Int.natCast_nonneg k
    rw [dif_neg (by decide), if_neg ?_, if_neg ?_, if_pos hsign]
    · rfl
    · change ¬ (k : Int) < -(2048 + 0)
      omega
    · change ¬ 2048 < (k : Int)
      omega
  have hslow : Json.tenTo k = Float.ofModel (Float.Model.ofScientific 1 (Int.ofNat k)) := by
    unfold Json.tenTo Float.ofScientific
    exact dif_neg fun h => absurd h.2 (Nat.not_le_of_lt hlow)
  rw [hslow, ← hscientific]
  rfl

theorem isFinite_coarse_tenTo_small :
    ∀ k < 23, (Json.tenTo k).isFinite = true ∧ coarse (Json.tenTo k).toModel.unpack = true := by
  decide +kernel

theorem log2_mul_pow_ge (k : Nat) : 53 ≤ (2 ^ 53 * 10 ^ k).log2 := by
  refine (Nat.le_log2 (by positivity)).mpr ?_
  exact Nat.le_mul_of_pos_right _ (Nat.pow_pos (by decide))

theorem coarse_tenTo {k : Nat} (hk : k ≤ Json.maxPower) :
    coarse (Json.tenTo k).toModel.unpack = true := by
  rcases Nat.lt_or_ge k 23 with hsmall | hlarge
  · exact (isFinite_coarse_tenTo_small k hsmall).2
  · have hlog := log2_mul_pow_ge k
    obtain ⟨m, e, hm, hround, hlow, hhigh, he⟩ := exists_of_roundWithAccuracy
      (Nat.le_of_succ_le hlog) (by omega : -1022 ≤ ((2 ^ 53 * 10 ^ k).log2 : Int) + -53)
      .positive .exact
    rw [unpack_tenTo hlarge hk, hround]
    exact coarse_unpack_pack hlow hhigh (by omega)

theorem isFinite_tenTo {k : Nat} (hk : k ≤ Json.maxPower) : (Json.tenTo k).isFinite = true := by
  rcases Nat.lt_or_ge k 23 with hsmall | hlarge
  · exact (isFinite_coarse_tenTo_small k hsmall).1
  · rcases Nat.lt_or_eq_of_le hk with hlt | rfl
    · have hlog : (2 ^ 53 * 10 ^ k).log2 ≤ 1072 := by
        refine log2_le_of_lt ?_
        calc
          2 ^ 53 * 10 ^ k ≤ 2 ^ 53 * 10 ^ 307 :=
            Nat.mul_le_mul_left _ (Nat.pow_le_pow_right (by decide) (Nat.le_of_lt_succ hlt))
          _ < 2 ^ (1072 + 1) := by decide +kernel
      have hround : Within 968
          (roundWithAccuracy .binary64 .positive (2 ^ 53 * 10 ^ k) (-53) .exact) :=
        (within_roundWithAccuracy ..).mono (by omega)
      change (Json.tenTo k).toModel.unpack.isFinite = true
      rw [unpack_tenTo hlarge hk]
      exact (within_unpack_pack hround (by decide) (by decide)).isFinite
    · decide +kernel

theorem within_div_tenTo {x : Float} (h : Within bound x.toModel.unpack) (hlow : 0 ≤ bound)
    (hhigh : bound ≤ 918) {k : Nat} (hk : k ≤ Json.maxPower) :
    Within (bound + 53) (x / Json.tenTo k).toModel.unpack := by
  have hdiv := within_div h (proper_unpack x.toModel.toBits.toBitVec) (coarse_tenTo hk)
  exact within_unpack_pack (hdiv.mono (by omega)) (by omega) (by omega)

end Double

namespace Json

theorem isFinite_of_scale? {x y : Float} (hx : Double.Within 12 x.toModel.unpack) {e : Int}
    (h : scale? x e = some y) : y.isFinite = true := by
  have hfinite : x.isFinite = true := hx.isFinite
  unfold scale? at h
  split at h
  case isTrue he =>
    split at h
    case isTrue hpower =>
      simp only at h
      split at h
      case isTrue => cases h
      case isFalse hinf =>
        cases h
        have hk : e.toNat ≤ maxPower := by omega
        exact Double.isFinite_mul hfinite (Double.isFinite_tenTo hk) (Bool.eq_false_iff.mpr hinf)
    case isFalse =>
      split at h
      case isTrue => cases h; exact hfinite
      case isFalse => cases h
  case isFalse he =>
    split at h
    case isTrue hpower =>
      cases h
      have hk : e.natAbs ≤ maxPower := by omega
      exact (Double.within_div_tenTo hx (by decide) (by decide) hk).isFinite
    case isFalse =>
      cases h
      have hfirst := Double.within_div_tenTo hx (by decide) (by decide) (Nat.le_refl maxPower)
      exact (Double.within_div_tenTo hfirst (by decide) (by decide) (Nat.min_le_right _ _)).isFinite

theorem isFinite_of_double? {n : Decimal.Numeral} {x : Float} (h : double? n = some x) :
    x.isFinite = true := by
  obtain ⟨y, hy, rfl⟩ := Option.map_eq_some_iff.mp h
  exact Double.isFinite_withSign (isFinite_of_scale? (Double.within_toFloat _) hy) n.negative

end Json

end DiceTray
