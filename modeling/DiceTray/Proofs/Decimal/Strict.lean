import DiceTray.Number
import DiceTray.Proofs.Decimal.Reading
import Mathlib

namespace DiceTray.Decimal

open Float.Model UnpackedFloat

structure Numeral.Strict (n : Numeral) : Prop where
  whole : n.whole ≠ []
  leading : ∀ ds, n.whole = 0 :: ds → ds = []
  fraction : n.fraction ≠ some []

section

theorem head_digitsAux {fuel n : Nat} (hn : 0 < n) (hfuel : n < fuel) {d : Digit} {ds : List Digit}
    (h : digitsAux fuel n = d :: ds) : d ≠ 0 := by
  induction fuel generalizing n ds with
  | zero => omega
  | succ fuel ih =>
      unfold digitsAux at h
      split at h
      case isTrue hlt =>
        cases h
        intro hzero
        have hval := congrArg Fin.val hzero
        rw [Fin.val_ofNat, Nat.mod_eq_of_lt hlt] at hval
        exact Nat.ne_of_gt hn hval
      case isFalse hge =>
        cases hds : digitsAux fuel (n / 10) with
        | nil =>
            have hval := value_digitsAux fuel (n / 10) (by omega)
            rw [hds] at hval
            change 0 = n / 10 at hval
            omega
        | cons e es =>
            rw [hds] at h
            cases h
            exact ih (by omega) (by omega) hds

theorem head_digits {n : Nat} (hn : 0 < n) {d : Digit} {ds : List Digit}
    (h : digits n = d :: ds) : d ≠ 0 :=
  head_digitsAux hn (Nat.lt_succ_self n) h

theorem eq_nil_of_digits {n : Nat} {ds : List Digit} (h : digits n = 0 :: ds) : ds = [] := by
  rcases Nat.eq_zero_or_pos n with rfl | hn
  · cases h
    rfl
  · exact absurd rfl (head_digits hn h)

theorem Numeral.strict_ofInt (i : Int) : (Numeral.ofInt i).Strict :=
  ⟨digits_ne_nil _, fun _ => eq_nil_of_digits, nofun⟩

end

section

variable {s : Span} {tie : Tie} {n d : Nat} {e : Int}

theorem roundQuotient_eq (tie : Tie) (n d : Nat) :
    roundQuotient tie n d = n / d ∨ roundQuotient tie n d = n / d + 1 := by
  unfold roundQuotient
  cases compare (2 * (n % d)) d with
  | lt => exact .inl rfl
  | gt => exact .inr rfl
  | eq =>
      cases tie with
      | up => exact .inr rfl
      | even =>
          by_cases heven : n / d % 2 = 0
          · exact .inl (if_pos heven)
          · exact .inr (if_neg heven)

theorem Span.mem_of_nearest? (h : s.nearest? tie e = some n) : s.mem n e = true := by
  unfold nearest? at h
  simp only at h
  split at h
  case h_1 => cases h
  case h_2 hlow _ =>
    cases h
    exact hlow
  case h_3 _ hhigh =>
    cases h
    exact hhigh
  case h_4 hlow hhigh =>
    cases h
    rcases roundQuotient_eq tie (s.value * Nat.pow 10 (-e).toNat)
      (s.denominator * Nat.pow 10 e.toNat) with heq | heq
    · rwa [heq]
    · rwa [heq]

theorem Span.pos_of_mem (hlow : 0 < s.low) (h : s.mem n e = true) : 0 < n := by
  rcases Nat.eq_zero_or_pos n with rfl | hn
  · have hscale : 0 < s.low * Nat.pow 10 (-e).toNat :=
      Nat.mul_pos hlow (Nat.pow_pos (by decide))
    unfold mem at h
    split at h
    case isTrue =>
      have hle := (of_decide_eq_true h).1
      omega
    case isFalse =>
      have hlt := (of_decide_eq_true h).1
      omega
  · exact hn

theorem Dyadic.low_span_pos {x : Dyadic} (h : 0 < x.mantissa) : 0 < x.span.low := by
  refine Nat.mul_pos ?_ (Nat.pow_pos (by decide))
  split <;> omega

theorem Dyadic.coefficient_shortest_pos {x : Dyadic} (h : 0 < x.mantissa) (tie : Tie) :
    0 < (x.shortest tie).coefficient := by
  unfold shortest
  simp only
  split
  case h_1 found hfound =>
    obtain ⟨i, -, hi⟩ := List.exists_of_findSome?_eq_some hfound
    obtain ⟨n, hn, rfl⟩ := Option.map_eq_some_iff.mp hi
    exact Span.pos_of_mem (low_span_pos h) (Span.mem_of_nearest? hn)
  case h_2 =>
    split
    · exact Nat.mul_pos h (Nat.pow_pos (by decide))
    · exact Nat.mul_pos h (Nat.pow_pos (by decide))

end

section

variable {x : Float}

theorem exists_unpack_eq_zero {b : BitVec Format.binary64.numBits}
    (hexponent : b.toNat / 2 ^ 52 % 2 ^ 11 = 0) (hmantissa : b.toNat % 2 ^ 52 = 0) :
    ∃ s, UnpackedFloat.unpack .binary64 b = .zero s := by
  have hexp : @unpackExponent .binary64 b = 0#_ := by
    refine BitVec.eq_of_toNat_eq ?_
    simpa [unpackExponent, Nat.shiftRight_eq_div_pow] using hexponent
  have hmant : @unpackMantissa .binary64 b = 0#_ := by
    refine BitVec.eq_of_toNat_eq ?_
    simpa [unpackMantissa] using hmantissa
  refine ⟨Sign.ofBitVec (@unpackSign .binary64 b), ?_⟩
  simp only [UnpackedFloat.unpack]
  rw [if_neg (by rw [hexp]; decide), if_pos hexp, dif_pos hmant]

theorem beq_zero_of_unpack {s : Sign} (h : x.toModel.unpack = .zero s) : (x == 0.0) = true := by
  change x.toModel.unpack.beq (.zero .positive) = true
  rw [h]
  rfl

theorem mantissa_ofFloat_pos (h : ¬ (x == 0.0) = true) : 0 < (Dyadic.ofFloat x).mantissa := by
  unfold Dyadic.ofFloat
  simp only
  split
  case isFalse =>
    exact Nat.lt_of_lt_of_le (by decide : 0 < 0x10000000000000) (Nat.le_add_right ..)
  case isTrue hexponent =>
    refine Nat.pos_of_ne_zero fun hmantissa => h ?_
    have hshift : x.toBits.toNat >>> 52 &&& (2 ^ 11 - 1) = 0 := by
      simpa using hexponent
    have hlow : x.toBits.toNat &&& (2 ^ 52 - 1) = 0 := by simpa using hmantissa
    rw [Nat.and_two_pow_sub_one_eq_mod] at hshift hlow
    rw [Nat.shiftRight_eq_div_pow] at hshift
    obtain ⟨s, hs⟩ := exists_unpack_eq_zero (b := x.toModel.toBits.toBitVec) hshift hlow
    exact beq_zero_of_unpack hs

theorem scale_scaledOf (tie : Tie) (x : Float) (h : (scaledOf tie x).coefficient = 0) :
    (scaledOf tie x).scale = 0 := by
  unfold scaledOf at h ⊢
  split at h
  case isTrue => rw [if_pos ‹_›]
  case isFalse hx =>
    exact absurd h (Nat.ne_of_gt (Dyadic.coefficient_shortest_pos (mantissa_ofFloat_pos hx) tie))

end

theorem plain_whole {s : Scaled} (h : s.coefficient = 0 → s.scale = 0) :
    s.plain.1 ≠ [] ∧ ∀ ds, s.plain.1 = 0 :: ds → ds = [] := by
  unfold Scaled.plain
  simp only
  split
  case isTrue =>
    refine ⟨by simp [digits_ne_nil], fun ds hds => ?_⟩
    rcases Nat.eq_zero_or_pos s.coefficient with hzero | hpos
    · rw [hzero, h hzero] at hds
      cases hds
      rfl
    · obtain ⟨d, es, hes⟩ := List.exists_cons_of_ne_nil (digits_ne_nil s.coefficient)
      rw [hes] at hds
      cases hds
      exact absurd rfl (head_digits hpos hes)
  case isFalse hscale =>
    split
    case isTrue hlt =>
      obtain ⟨d, es, hes⟩ := List.exists_cons_of_ne_nil (digits_ne_nil s.coefficient)
      rw [hes] at hlt ⊢
      obtain ⟨k, hk⟩ := Nat.exists_eq_succ_of_ne_zero (Nat.sub_ne_zero_of_lt hlt)
      rw [hk, List.take_succ_cons]
      refine ⟨by simp, fun ds hds => ?_⟩
      cases hds
      rw [eq_nil_of_digits hes, List.take_nil]
    case isFalse => exact ⟨by simp [zeros], fun ds hds => by cases hds; rfl⟩

theorem strict_markedNumeral (x : Float) : (markedNumeral x).Strict := by
  unfold markedNumeral
  simp only
  split
  case isTrue =>
    obtain ⟨hwhole, hleading⟩ := plain_whole (scale_scaledOf .even x)
    refine ⟨hwhole, hleading, ?_⟩
    simp only [ne_eq, Option.some.injEq]
    split
    · decide
    · assumption
  case isFalse =>
    obtain ⟨d, ds, hds⟩ := List.exists_cons_of_ne_nil (digits_ne_nil (scaledOf .even x).coefficient)
    rw [hds]
    refine ⟨by simp, fun es hes => by cases hes; rfl, ?_⟩
    simp only [ne_eq]
    split
    · exact nofun
    · simpa using ‹_›

theorem integer?_markedNumeral (x : Float) : (markedNumeral x).integer? = none := by
  unfold markedNumeral
  simp only
  split
  · rfl
  · unfold Numeral.integer?
    split
    case h_1 he => cases he
    case h_2 => rfl

end DiceTray.Decimal
