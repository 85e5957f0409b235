import DiceTray.Proofs.Number.Finite

namespace DiceTray

open Float.Model UnpackedFloat

namespace Double

section Shift

variable {em em' : ExtendedMantissa}

/-- The mantissa with its two residual bits behind it. -/
def code (em : ExtendedMantissa) : Nat :=
  4 * em.mantissa + 2 * em.roundBit.toNat + em.stickyBit.toNat

theorem code_shiftRightOne (em : ExtendedMantissa) :
    code em.shiftRightOne = 2 * (code em / 4) + min (code em % 4) 1 := by
  rcases em with ⟨m, _ | _, _ | _⟩ <;>
    rcases Nat.mod_two_eq_zero_or_one m with hm | hm <;>
      simp [code, ExtendedMantissa.shiftRightOne, hm] <;> omega

theorem code_shiftRight_le (h : code em ≤ code em') (k : Nat) :
    code (em >>> k) ≤ code (em' >>> k) := by
  induction k with
  | zero => exact h
  | succ k ih =>
      change code (em >>> k).shiftRightOne ≤ code (em' >>> k).shiftRightOne
      rw [code_shiftRightOne, code_shiftRightOne]
      omega

theorem roundedMantissa_eq (em : ExtendedMantissa) :
    em.roundedMantissa = (code em + 1 + em.mantissa % 2) / 4 := by
  rcases em with ⟨m, _ | _, _ | _⟩ <;>
    simp only [code, ExtendedMantissa.roundedMantissa, ExtendedMantissa.accuracy,
      Accuracy.roundToNearestEven, Bool.toNat_true, Bool.toNat_false] <;> omega

theorem mantissa_eq (em : ExtendedMantissa) : em.mantissa = code em / 4 := by
  have hround := Bool.toNat_le em.roundBit
  have hsticky := Bool.toNat_le em.stickyBit
  unfold code
  omega

theorem roundedMantissa_le_of_code_le (h : code em ≤ code em') :
    em.roundedMantissa ≤ em'.roundedMantissa := by
  rw [roundedMantissa_eq, roundedMantissa_eq]
  refine Nat.div_le_div_right ?_
  rcases Nat.lt_or_eq_of_le h with hlt | heq
  · omega
  · rw [mantissa_eq, mantissa_eq, heq]

end Shift

section Whole

variable {u v : UnpackedFloat}

inductive Whole : UnpackedFloat → Prop where
  | zero (s : Sign) : Whole (.zero s)
  | finite (s : Sign) {m : Nat} {e : Int} (hm : 0 < m) (hlow : 2 ^ 52 ≤ m) (hhigh : m < 2 ^ 53)
      (he : -52 ≤ e) (hroom : e ≤ 971) : Whole (.finite s m e hm)

def signed : Sign → Int → Int
  | .positive, n => n
  | .negative, n => -n

def size (m : Nat) (e : Int) : Int := (e + 52) * 2 ^ 52 + m

def grade : UnpackedFloat → Int
  | .finite s m e _ => signed s (size m e)
  | _ => 0

theorem Whole.neg (h : Whole u) : Whole u.neg := by
  cases h with
  | zero s => exact .zero _
  | finite s hm hlow hhigh he hroom => exact .finite _ hm hlow hhigh he hroom

theorem Whole.isNaN_eq_false (h : Whole u) : u.isNaN = false := by
  cases h <;> rfl

theorem grade_neg (u : UnpackedFloat) : grade u.neg = -grade u := by
  cases u with
  | finite s m e hm =>
      cases s with
      | positive => rfl
      | negative => exact (Int.neg_neg _).symm
  | notANumber | infinity | zero => rfl

section Compare

variable {m m' : Nat} {e e' : Int} {s s' : Sign}

theorem size_pos (hlow : 2 ^ 52 ≤ m) (he : -52 ≤ e) : 0 < size m e := by
  unfold size
  omega

theorem size_eq_iff (hlow : 2 ^ 52 ≤ m) (hhigh : m < 2 ^ 53) (hlow' : 2 ^ 52 ≤ m')
    (hhigh' : m' < 2 ^ 53) : size m e = size m' e' ↔ e = e' ∧ m = m' := by
  unfold size
  omega

theorem signed_ne_zero {n : Int} (hn : 0 < n) : signed s n ≠ 0 := by
  cases s with
  | positive => exact Int.ne_of_gt hn
  | negative => exact Int.neg_ne_zero.mpr (Int.ne_of_gt hn)

theorem signed_eq_iff {n n' : Int} (hn : 0 < n) (hn' : 0 < n') :
    signed s n = signed s' n' ↔ s = s' ∧ n = n' := by
  cases s <;> cases s' <;> simp [signed] <;> omega

theorem compare_finite_eq_iff (hm : 0 < m) (hm' : 0 < m') :
    UnpackedFloat.compare (.finite s m e hm) (.finite s' m' e' hm') = some .eq ↔
      s = s' ∧ e = e' ∧ m = m' := by
  have hthen : (compare e e').then (compare m m') = .eq ↔ e = e' ∧ m = m' := by
    rw [Ordering.then_eq_eq, Int.compare_eq_eq, Nat.compare_eq_eq]
  cases s <;> cases s' <;> simp [UnpackedFloat.compare, hthen]

theorem beq_iff_grade_eq (hu : Whole u) (hv : Whole v) :
    u.beq v = true ↔ grade u = grade v := by
  unfold UnpackedFloat.beq
  rw [beq_iff_eq]
  cases hu with
  | zero s =>
      cases hv with
      | zero s' => exact iff_of_true rfl rfl
      | finite s' _ hlow _ he =>
          exact iff_of_false (by cases s' <;> nofun) (signed_ne_zero (size_pos hlow he)).symm
  | finite s hm hlow hhigh he =>
      cases hv with
      | zero s' => exact iff_of_false (by cases s <;> nofun) (signed_ne_zero (size_pos hlow he))
      | finite s' hm' hlow' hhigh' he' =>
          rw [compare_finite_eq_iff, grade, grade,
            signed_eq_iff (size_pos hlow he) (size_pos hlow' he'),
            size_eq_iff hlow hhigh hlow' hhigh']

end Compare

theorem unpackSign_packComponents (s : Sign) (exponent : BitVec 11) (mantissa : BitVec 52) :
    unpackSign (packComponents .binary64 s exponent mantissa) = s.toBitVec := by
  change (s.toBitVec ++ exponent ++ mantissa).extractLsb' 63 1 = s.toBitVec
  rw [BitVec.extractLsb'_append_eq_of_le (by decide),
    BitVec.extractLsb'_append_eq_of_le (by decide)]
  cases s <;> rfl

theorem toNat_one_append_ofNat {m : Nat} (hlow : 2 ^ 52 ≤ m) (hhigh : m < 2 ^ 53) :
    (1#1 ++ BitVec.ofNat 52 m).toNat = m := by
  rw [BitVec.toNat_append, BitVec.toNat_ofNat]
  change 2 ^ 52 ||| m % 2 ^ 52 = m
  rw [Nat.or_comm, Nat.or_two_pow_eq_add_of_lt (Nat.mod_lt m (Nat.two_pow_pos 52))]
  omega

theorem unpack_packComponents_normal (s : Sign) {exponent : BitVec 11} (mantissa : BitVec 52)
    (hzero : exponent ≠ 0#11) (hfull : exponent ≠ -1#11) (hm : 0 < (1#1 ++ mantissa).toNat) :
    UnpackedFloat.unpack .binary64 (packComponents .binary64 s exponent mantissa) =
      .finite s (1#1 ++ mantissa).toNat (exponent.toNat - 1075) hm := by
  have hs : Sign.ofBitVec s.toBitVec = s := by cases s <;> rfl
  simp only [UnpackedFloat.unpack, unpackExponent_packComponents, unpackMantissa_packComponents]
  rw [if_neg hfull, if_neg hzero, unpackSign_packComponents, hs]
  rfl

theorem Whole.unpack_pack (h : Whole u) :
    UnpackedFloat.unpack .binary64 (UnpackedFloat.pack .binary64 u) = u := by
  cases h with
  | zero s => exact unpack_packedZero
  | @finite s m e hm hlow hhigh he hroom =>
      have hexponent : (BitVec.ofNat 11 (e + 1023 + 52).toNat).toNat = (e + 1023 + 52).toNat :=
        Nat.mod_eq_of_lt (by omega)
      have hzero : BitVec.ofNat 11 (e + 1023 + 52).toNat ≠ 0#11 := fun h => by
        have hval := hexponent.symm.trans (congrArg BitVec.toNat h)
        change _ = 0 at hval
        omega
      have hfull : BitVec.ofNat 11 (e + 1023 + 52).toNat ≠ -1#11 := fun h => by
        have hval := hexponent.symm.trans (congrArg BitVec.toNat h)
        change _ = 2047 at hval
        omega
      have hmantissa := toNat_one_append_ofNat hlow hhigh
      rw [pack_of_normal s hm hlow hhigh hroom,
        unpack_packComponents_normal s _ hzero hfull (hmantissa.symm ▸ hm)]
      congr 1
      omega

end Whole

section Place

variable {n n' : Nat}

theorem shiftToTargetExponent_rounded {r : Nat} (hlow : 2 ^ 52 ≤ r) (hhigh : r ≤ 2 ^ 53) {e : Int}
    (he : -1074 ≤ e) :
    let shifted := shiftToTargetExponent .binary64 r e .exact
    2 ^ 52 ≤ shifted.1.mantissa ∧ shifted.1.mantissa < 2 ^ 53 ∧ e ≤ shifted.2 ∧
      shifted.2 ≤ e + 1 ∧
      size shifted.1.mantissa shifted.2 = size r e := by
  intro shifted
  unfold size
  have hmantissa : shifted.1.mantissa = _ := mantissa_shiftToTargetExponent r e .exact
  have hexponent : shifted.2 = _ := exponent_shiftToTargetExponent r e .exact
  -- only a carry through all bits leaves a mantissa that is shifted again, and it ends in a zero
  rcases Nat.lt_or_eq_of_le hhigh with hlt | rfl
  · have hlog : r.log2 = 52 := (Nat.log2_eq_iff (by omega)).mpr ⟨hlow, hlt⟩
    rw [hlog, show (max (((52 : Nat) : Int) + 1 + e - 53) (-1074) - e).toNat = 0 by omega,
      Nat.pow_zero, Nat.div_one] at hmantissa
    rw [hlog] at hexponent
    omega
  · have hlog : (2 ^ 53 : Nat).log2 = 53 := Nat.log2_two_pow
    rw [hlog, show (max (((53 : Nat) : Int) + 1 + e - 53) (-1074) - e).toNat = 1 by omega]
      at hmantissa
    rw [hlog] at hexponent
    omega

theorem whole_roundWithAccuracy {m : Nat} {e : Int} (hlog : 52 ≤ m.log2)
    (hlow : 0 ≤ m.log2 + e) (hhigh : m.log2 + e ≤ 1022) (s : Sign) (a : Accuracy) :
    Whole (roundWithAccuracy .binary64 s m e a) ∧
      grade (roundWithAccuracy .binary64 s m e a) = signed s ((m.log2 + e) * 2 ^ 52 +
        (shiftToTargetExponent .binary64 m e a).1.roundedMantissa) := by
  have hnormal : -1022 ≤ m.log2 + e := by omega
  have hexponent := (shiftToTargetExponent_normal hlog hnormal a).2
  obtain ⟨hr, hr'⟩ := roundedMantissa_shiftToTargetExponent_bounds hlog hnormal a
  obtain ⟨hm, hm', he, he', hgrade⟩ := shiftToTargetExponent_rounded hr hr'
    (by omega : -1074 ≤ (shiftToTargetExponent .binary64 m e a).2)
  rw [roundWithAccuracy_eq s m e a (Nat.lt_of_lt_of_le (Nat.two_pow_pos 52) hm)]
  refine ⟨.finite s _ hm hm' ?_ ?_, congrArg (signed s) ?_⟩
  · omega
  · omega
  · rw [hgrade, hexponent, size]
    omega

def rounded (n : Nat) : Nat :=
  (shiftToTargetExponent .binary64 (n <<< (52 - n.log2)) (-((52 - n.log2 : Nat) : Int))
    .exact).1.roundedMantissa

/-- The place that a whole number has among the doubles: first by its bits, then by its mantissa. -/
def place (n : Nat) : Nat := if n = 0 then 0 else n.log2 * 2 ^ 52 + rounded n

theorem log2_shiftLeft (hn : n ≠ 0) (k : Nat) : (n <<< k).log2 = n.log2 + k := by
  rw [Nat.shiftLeft_eq]
  refine (Nat.log2_eq_iff (Nat.mul_ne_zero hn (Nat.ne_of_gt (Nat.two_pow_pos k)))).mpr ⟨?_, ?_⟩
  · rw [Nat.pow_add]
    exact Nat.mul_le_mul_right _ (Nat.log2_self_le hn)
  · rw [Nat.add_right_comm, Nat.pow_add]
    exact Nat.mul_lt_mul_of_pos_right Nat.lt_log2_self (Nat.two_pow_pos k)

theorem rounded_eq (hn : n ≠ 0) :
    rounded n = ((⟨n <<< (52 - n.log2), false, false⟩ : ExtendedMantissa) >>>
      (n.log2 - 52)).roundedMantissa := by
  have hlog := log2_shiftLeft hn (52 - n.log2)
  have hshift : (max (((n <<< (52 - n.log2)).log2 : Int) + 1 + -((52 - n.log2 : Nat) : Int) - 53)
      (-1074) - -((52 - n.log2 : Nat) : Int)).toNat = n.log2 - 52 := by omega
  rw [← hshift]
  rfl

theorem rounded_bounds (hn : n ≠ 0) : 2 ^ 52 ≤ rounded n ∧ rounded n ≤ 2 ^ 53 := by
  have hlog := log2_shiftLeft hn (52 - n.log2)
  exact roundedMantissa_shiftToTargetExponent_bounds (by omega) (by omega) .exact

theorem rounded_le (hn : n ≠ 0) (hlog : n.log2 = n'.log2) (h : n ≤ n') :
    rounded n ≤ rounded n' := by
  rw [rounded_eq hn, rounded_eq (by omega), hlog]
  refine roundedMantissa_le_of_code_le (code_shiftRight_le ?_ _)
  simp only [code, Bool.toNat_false, Nat.shiftLeft_eq]
  exact Nat.mul_le_mul_left 4 (Nat.mul_le_mul_right _ h)

theorem rounded_of_log2_le (hn : n ≠ 0) (hlog : n.log2 ≤ 52) :
    rounded n = n * 2 ^ (52 - n.log2) := by
  rw [rounded_eq hn, Nat.sub_eq_zero_of_le hlog, Nat.shiftLeft_eq]
  rfl

theorem place_of_ne_zero (hn : n ≠ 0) : place n = n.log2 * 2 ^ 52 + rounded n := if_neg hn

theorem log2_le_log2 (hn : n ≠ 0) (h : n ≤ n') : n.log2 ≤ n'.log2 :=
  (Nat.le_log2 (by omega)).mpr (Nat.le_trans (Nat.log2_self_le hn) h)

theorem place_le (h : n ≤ n') : place n ≤ place n' := by
  rcases Nat.eq_zero_or_pos n with rfl | hpos
  · exact Nat.zero_le _
  · have hn := Nat.ne_of_gt hpos
    have hn' : n' ≠ 0 := by omega
    rw [place_of_ne_zero hn, place_of_ne_zero hn']
    -- a further bit outweighs all that rounding can add to the mantissa
    rcases Nat.lt_or_eq_of_le (log2_le_log2 hn h) with hlt | heq
    · have hhigh := (rounded_bounds hn).2
      have hlow := (rounded_bounds hn').1
      omega
    · have hrounded := rounded_le hn heq h
      omega

theorem mul_two_pow_lt (hlog : n.log2 ≤ 52) : n * 2 ^ (52 - n.log2) < 2 ^ 53 := by
  calc
    n * 2 ^ (52 - n.log2) < 2 ^ (n.log2 + 1) * 2 ^ (52 - n.log2) :=
      Nat.mul_lt_mul_of_pos_right Nat.lt_log2_self (Nat.two_pow_pos _)
    _ = 2 ^ 53 := by
      rw [← Nat.pow_add]
      congr 1
      omega

theorem place_lt_succ (h : n < 2 ^ 53) : place n < place (n + 1) := by
  have hsucc := (rounded_bounds (Nat.add_one_ne_zero n)).1
  rw [place_of_ne_zero (Nat.add_one_ne_zero n)]
  rcases Nat.eq_zero_or_pos n with rfl | hpos
  · exact Nat.lt_of_lt_of_le (Nat.lt_of_lt_of_le (Nat.two_pow_pos 52) hsucc)
      (Nat.le_add_left _ _)
  · have hn := Nat.ne_of_gt hpos
    have hlog := log2_le_of_lt h
    have hless := mul_two_pow_lt hlog
    rw [place_of_ne_zero hn, rounded_of_log2_le hn hlog]
    rcases Nat.lt_or_eq_of_le (log2_le_log2 hn (Nat.le_add_right n 1)) with hlt | heq
    · omega
    · have hstep := Nat.two_pow_pos (52 - n.log2)
      rw [rounded_of_log2_le (Nat.add_one_ne_zero n) (heq ▸ hlog), ← heq, Nat.succ_mul]
      omega

end Place

section Words

theorem round_natCast (s : Sign) (n : Nat) :
    UnpackedFloat.round .binary64 s n 0 = roundWithAccuracy .binary64 s (n <<< (52 - n.log2))
      (-((52 - n.log2 : Nat) : Int)) .exact := by
  have hshift : (0 - max ((n.log2 : Int) + 1 + 0 - 53) (-1074)).toNat = 52 - n.log2 := by omega
  change roundWithAccuracy .binary64 s
    (n <<< (0 - max ((n.log2 : Int) + 1 + 0 - 53) (-1074)).toNat)
    (0 - ((0 - max ((n.log2 : Int) + 1 + 0 - 53) (-1074)).toNat : Int)) .exact = _
  rw [hshift, Int.zero_sub]

theorem whole_ofUInt64 (n : UInt64) :
    Whole (UnpackedFloat.ofUInt64 .binary64 n) ∧
      grade (UnpackedFloat.ofUInt64 .binary64 n) = place n.toNat := by
  unfold UnpackedFloat.ofUInt64 UnpackedFloat.ofNat UnpackedFloat.ofInt UnpackedFloat.normalize
  split
  case h_1 hn =>
    have := Int.compare_eq_lt.mp hn
    omega
  case h_2 hn =>
    have hzero : n.toNat = 0 := by exact_mod_cast Int.compare_eq_eq.mp hn
    rw [hzero]
    exact ⟨.zero .positive, rfl⟩
  case h_3 hn =>
    have hne : n.toNat ≠ 0 := by
      have := Int.compare_eq_gt.mp hn
      omega
    have hlog := log2_shiftLeft hne (52 - n.toNat.log2)
    have hbits := log2_le_of_lt (k := 63) n.toNat_lt
    obtain ⟨hwhole, hgrade⟩ := whole_roundWithAccuracy (m := n.toNat <<< (52 - n.toNat.log2))
      (e := -((52 - n.toNat.log2 : Nat) : Int)) (by omega) (by omega) (by omega) .positive .exact
    rw [Int.toNat_natCast, round_natCast]
    refine ⟨hwhole, hgrade.trans ?_⟩
    rw [place_of_ne_zero hne, signed, rounded]
    omega

theorem whole_toFloat (n : UInt64) :
    Whole n.toFloat.toModel.unpack ∧ grade n.toFloat.toModel.unpack = place n.toNat := by
  have hunpack : n.toFloat.toModel.unpack = UnpackedFloat.ofUInt64 .binary64 n :=
    (whole_ofUInt64 n).1.unpack_pack
  rw [hunpack]
  exact whole_ofUInt64 n

theorem whole_neg {x : Float} (h : Whole x.toModel.unpack) :
    Whole (-x).toModel.unpack ∧ grade (-x).toModel.unpack = -grade x.toModel.unpack := by
  have hunpack : (-x).toModel.unpack = x.toModel.unpack.neg := h.neg.unpack_pack
  rw [hunpack]
  exact ⟨h.neg, grade_neg _⟩

def signedPlace (n : Int) : Int := n.sign * place n.natAbs

theorem whole_toDouble (n : Int64) :
    Whole (toDouble n).toModel.unpack ∧
      grade (toDouble n).toModel.unpack = signedPlace n.toInt := by
  have hnat : n.toInt.natAbs.toUInt64.toNat = n.toInt.natAbs := by
    have hlow := n.le_toInt
    have hhigh := n.toInt_lt
    rw [Nat.toUInt64_eq, UInt64.toNat_ofNat']
    omega
  have hwhole := whole_toFloat n.toInt.natAbs.toUInt64
  rw [hnat] at hwhole
  unfold toDouble
  simp only
  split
  case isTrue hneg =>
    have hsign : n.toInt.sign = -1 := Int.sign_eq_neg_one_of_neg (Int64.lt_iff_toInt_lt.mp hneg)
    obtain ⟨hneg, hgrade⟩ := whole_neg hwhole.1
    refine ⟨hneg, hgrade.trans ?_⟩
    rw [hwhole.2, signedPlace, hsign, Int.neg_one_mul]
  case isFalse hneg =>
    refine ⟨hwhole.1, hwhole.2.trans ?_⟩
    rcases Int.lt_or_eq_of_le (Int.not_lt.mp (mt Int64.lt_iff_toInt_lt.mpr hneg)) with hpos | hzero
    · rw [signedPlace, Int.sign_eq_one_of_pos hpos, Int.one_mul]
    · rw [← hzero]
      rfl

theorem toDouble_beq_iff (a b : Int64) :
    (toDouble a == toDouble b) = true ↔ signedPlace a.toInt = signedPlace b.toInt := by
  obtain ⟨ha, hgrade⟩ := whole_toDouble a
  obtain ⟨hb, hgrade'⟩ := whole_toDouble b
  rw [← hgrade, ← hgrade']
  exact beq_iff_grade_eq ha hb

theorem isNaN_toDouble (n : Int64) : (toDouble n).isNaN = false :=
  (whole_toDouble n).1.isNaN_eq_false

theorem signedPlace_neg (n : Int) : signedPlace (-n) = -signedPlace n := by
  rw [signedPlace, Int.sign_neg, Int.natAbs_neg, Int.neg_mul]
  rfl

theorem signedPlace_natCast (n : Nat) : signedPlace n = place n := by
  cases n with
  | zero => rfl
  | succ n => exact Int.one_mul _

theorem signedPlace_le {m n : Int} (h : m ≤ n) : signedPlace m ≤ signedPlace n := by
  obtain ⟨j, rfl | rfl⟩ := m.eq_nat_or_neg
  · obtain ⟨k, rfl | rfl⟩ := n.eq_nat_or_neg
    · rw [signedPlace_natCast, signedPlace_natCast]
      exact Int.ofNat_le.mpr (place_le (Int.ofNat_le.mp h))
    · obtain ⟨rfl, rfl⟩ : j = 0 ∧ k = 0 := by omega
      exact Int.le_refl _
  · obtain ⟨k, rfl | rfl⟩ := n.eq_nat_or_neg
    · rw [signedPlace_neg, signedPlace_natCast, signedPlace_natCast]
      omega
    · have hplace : place k ≤ place j := place_le (by omega)
      rw [signedPlace_neg, signedPlace_neg, signedPlace_natCast, signedPlace_natCast]
      omega

theorem signedPlace_lt_succ {n : Int} (hlow : -2 ^ 53 ≤ n) (hhigh : n < 2 ^ 53) :
    signedPlace n < signedPlace (n + 1) := by
  rcases Int.lt_or_le n 0 with hneg | hpos
  · obtain ⟨k, rfl⟩ : ∃ k : Nat, n = -(k + 1) := ⟨(-n - 1).toNat, by omega⟩
    have hplace : place k < place (k + 1) := place_lt_succ (by omega)
    rw [show -((k : Int) + 1) + 1 = -(k : Int) by omega, signedPlace_neg, signedPlace_neg,
      show (k : Int) + 1 = ((k + 1 : Nat) : Int) from rfl, signedPlace_natCast, signedPlace_natCast]
    omega
  · obtain ⟨k, rfl⟩ := Int.eq_ofNat_of_zero_le hpos
    have hplace : place k < place (k + 1) := place_lt_succ (by omega)
    rw [show (k : Int) + 1 = ((k + 1 : Nat) : Int) from rfl, signedPlace_natCast,
      signedPlace_natCast]
    exact Int.ofNat_lt.mpr hplace

end Words

end Double

end DiceTray
