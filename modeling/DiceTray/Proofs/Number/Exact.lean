import DiceTray.Operator
import Mathlib.Algebra.Order.Ring.Int
import Mathlib.Algebra.Ring.Parity

namespace DiceTray

namespace Number

theorem exactly_eq_int_iff {exact : Option Int} {real : Float} {v : Int64} :
    exactly exact real = .int v ↔ exact = some v.toInt := by
  unfold exactly
  cases exact with
  | none => simp
  | some n =>
      rw [Option.bind_some]
      cases hn : fit? n with
      | none =>
          have hfits := fit?_eq_none_iff.mp hn
          simp only [reduceCtorEq, Option.some.injEq, false_iff]
          rintro rfl
          exact hfits (fits_toInt v)
      | some w =>
          have hw := fit?_eq_some_iff.mp hn
          simp only [int.injEq, Option.some.injEq, ← hw, Int64.toInt_inj]

theorem add_int_zero (a : Int64) : add (.int a) (.int 0) = .int a :=
  exactly_eq_int_iff.mpr (by simp)

theorem signed_natAbs_pow (a : Int) (n : Nat) :
    (if a < 0 ∧ n % 2 = 1 then -(a.natAbs : Int) ^ n else (a.natAbs : Int) ^ n) = a ^ n := by
  by_cases ha : a < 0
  · have hneg : a = -(a.natAbs : Int) := by omega
    rcases Nat.even_or_odd n with hn | hn
    · have heven := Nat.even_iff.mp hn
      rw [if_neg (by omega)]
      conv_rhs => rw [hneg, hn.neg_pow]
    · rw [if_pos ⟨ha, Nat.odd_iff.mp hn⟩]
      conv_rhs => rw [hneg, hn.neg_pow]
  · have hpos : a = (a.natAbs : Int) := by omega
    rw [if_neg (fun h => ha h.1), ← hpos]

theorem not_fits_pow {a : Int} {n : Nat} (ha : 2 ≤ a.natAbs) (hn : 64 ≤ n) : ¬ Fits (a ^ n) := by
  have hpow : 2 ^ 64 ≤ (a ^ n).natAbs := by
    rw [Int.natAbs_pow]
    calc
      2 ^ 64 ≤ 2 ^ n := Nat.pow_le_pow_right (by decide) hn
      _ ≤ a.natAbs ^ n := Nat.pow_le_pow_left ha n
  rintro ⟨hlow, hhigh⟩
  omega

theorem intPow?_eq_some_iff {a b : Int64} {v : Int64} :
    intPow? a b = some v.toInt ↔
      0 ≤ b.toInt ∧ b.toInt < exponentLimit ∧ a.toInt ^ b.toInt.toNat = v.toInt := by
  unfold intPow?
  by_cases hb : 0 ≤ b.toInt ∧ b.toInt < exponentLimit
  · rw [if_pos hb]
    split
    case isTrue =>
        have hodd : b.toInt % 2 = 1 ↔ b.toInt.toNat % 2 = 1 := by omega
        have hsign := signed_natAbs_pow a.toInt b.toInt.toNat
        simp only [Int64.lt_iff_toInt_lt, hodd, Nat.pow_eq, Nat.cast_pow, Int64.toInt_zero, hsign,
          Option.some.injEq]
        simp [hb]
    case isFalse h =>
        obtain ⟨ha, hlarge⟩ := not_or.mp h
        have hnot := not_fits_pow (a := a.toInt) (n := b.toInt.toNat) (by omega) (by omega)
        simp only [reduceCtorEq, hb, true_and, false_iff]
        intro hv
        exact hnot (hv ▸ fits_toInt v)
  · rw [if_neg hb]
    simp only [reduceCtorEq, false_iff]
    exact fun h => hb ⟨h.1, h.2.1⟩

end Number

namespace Operator

def integer? (op : Operator) (a b : Int) : Option Int :=
  match op with
  | .add => some (a + b)
  | .sub => some (a - b)
  | .mul => some (a * b)
  | .div => none
  | .pow => if 0 ≤ b ∧ b < 4294967296 then some (a ^ b.toNat) else none

theorem apply_int_eq_int_iff {op : Operator} {a b v : Int64} :
    op.apply (.int a) (.int b) = .int v ↔ op.integer? a.toInt b.toInt = some v.toInt := by
  cases op with
  | add => exact Number.exactly_eq_int_iff
  | sub => exact Number.exactly_eq_int_iff
  | mul => exact Number.exactly_eq_int_iff
  | div => simp [apply, Number.div, integer?]
  | pow =>
      rw [apply, Number.pow, Number.exactly_eq_int_iff, Number.intPow?_eq_some_iff, integer?]
      simp [Number.exponentLimit, and_assoc]

theorem exists_int_of_apply {op : Operator} {x y : Number} {v : Int64}
    (h : op.apply x y = .int v) : ∃ a b, x = .int a ∧ y = .int b := by
  cases x with
  | int a =>
      cases y with
      | int b => exact ⟨a, b, rfl, rfl⟩
      | real y => cases op <;> cases h
  | real x => cases op <;> cases y <;> cases h

end Operator

end DiceTray
