import DiceTray.Proofs.Decimal.Strict
import DiceTray.Proofs.Number.Within

namespace DiceTray.Json

open Decimal

theorem unsigned_of_text {n : Numeral} (hwhole : n.whole ≠ []) {negative : Bool}
    {body : List Char}
    (h : (match n.text with
      | '-' :: rest => (true, rest)
      | rest => (false, rest)) = (negative, body)) :
    negative = n.negative ∧ body = n.magnitude := by
  obtain ⟨d, ds, hds⟩ := List.exists_cons_of_ne_nil hwhole
  rw [Numeral.text_eq] at h
  cases hn : n.negative with
  | true =>
      rw [hn] at h
      cases h
      exact ⟨rfl, rfl⟩
  | false =>
      rw [hn, Numeral.signed, if_neg (by decide)] at h
      split at h
      case h_1 hm =>
        rw [Numeral.magnitude, hds] at hm
        exact absurd (List.cons.inj hm).1 (Digit.char_ne rfl d)
      case h_2 =>
        cases h
        exact ⟨rfl, rfl⟩

theorem numeral?_text {n : Numeral} (h : n.Strict) : numeral? n.text = some n := by
  unfold numeral?
  split
  next negative body hsign =>
    obtain ⟨rfl, rfl⟩ := unsigned_of_text h.whole hsign
    rw [Numeral.readUnsigned?_magnitude]
    simp only
    split
    case h_1 hw => exact absurd hw h.whole
    case h_2 => exact absurd ‹n.fraction = some []› h.fraction
    case h_3 hw _ => cases h.leading _ hw
    case h_4 => rfl

theorem le_foldl_digits (m : Nat) (ds : List Digit) :
    m ≤ ds.foldl (fun n d => 10 * n + d.val) m := by
  induction ds generalizing m with
  | nil => exact Nat.le_refl m
  | cons d ds ih => exact Nat.le_trans (by omega) (ih (10 * m + d.val))

theorem gather_of_lt (m : Nat) (ds : List Digit)
    (h : ds.foldl (fun n d => 10 * n + d.val) m < wordLimit) :
    gather m ds = (ds.foldl (fun n d => 10 * n + d.val) m, 0) := by
  induction ds generalizing m with
  | nil => rfl
  | cons d ds ih =>
      rw [List.foldl_cons] at h
      rw [gather, if_pos (Nat.lt_of_le_of_lt (le_foldl_digits ..) h), ih _ h, List.foldl_cons]

theorem approximate_ofInt {i : Int} (h : i.natAbs < wordLimit) :
    approximate (Numeral.ofInt i) = (i.natAbs, 0) := by
  have hvalue : (digits i.natAbs).foldl (fun n d => 10 * n + d.val) 0 = i.natAbs :=
    value_digits i.natAbs
  have hgather := gather_of_lt 0 (digits i.natAbs) (by rw [hvalue]; exact h)
  rw [hvalue] at hgather
  simp only [approximate, Numeral.ofInt, hgather]
  rfl

theorem isSome_double?_ofInt {i : Int} (h : i.natAbs < wordLimit) :
    (double? (Numeral.ofInt i)).isSome = true := by
  rw [double?, approximate_ofInt h, Option.isSome_map]
  simp only [scale?]
  rw [if_pos (by decide), if_pos (by decide)]
  change (if (i.natAbs.toUInt64.toFloat * tenTo 0).isInf = true then none else _).isSome = true
  rw [Double.isInf_toFloat_mul_tenTo_zero]
  rfl

theorem integer?_ofInt (i : Int) : (Numeral.ofInt i).integer? = some i := by
  change some (if decide (i < 0) = true then -(value (digits i.natAbs) : Int)
    else value (digits i.natAbs)) = some i
  rw [value_digits, Option.some.injEq]
  split
  case isTrue h =>
    have := of_decide_eq_true h
    omega
  case isFalse h =>
    have : ¬ i < 0 := fun hi => h (decide_eq_true hi)
    omega

theorem number?_ofInt (i : Int64) : number? (Numeral.ofInt i.toInt) = some (.int i) := by
  have hfit : fit? i.toInt = some i := fit?_eq_some_iff.mpr rfl
  simp only [number?, integer?_ofInt, Option.bind_some, hfit]
  refine if_neg fun ⟨hi, hn⟩ => ?_
  subst hi
  exact absurd hn (by decide)

theorem number?_markedNumeral (x : Float) :
    number? (markedNumeral x) = (double? (markedNumeral x)).map .real := by
  rw [number?, integer?_markedNumeral]
  rfl

end DiceTray.Json
