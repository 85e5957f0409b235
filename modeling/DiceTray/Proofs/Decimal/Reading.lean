import DiceTray.Decimal.Reading

namespace DiceTray.Decimal

def Halts (cs : List Char) : Prop := ∀ c ∈ cs.head?, Digit.ofChar? c = none

theorem halts_nil : Halts [] := nofun

theorem halts_cons {c : Char} (h : Digit.ofChar? c = none) (cs : List Char) : Halts (c :: cs) :=
  fun x hx => by
    cases hx
    exact h

theorem Halts.ofChar?_eq_none {c : Char} {cs : List Char} (h : Halts (c :: cs)) :
    Digit.ofChar? c = none :=
  h c rfl

theorem Digit.char_ne {c : Char} (h : Digit.ofChar? c = none) (d : Digit) : d.char ≠ c := by
  rintro rfl
  cases (Digit.ofChar?_char d).symm.trans h

theorem spanDigits_of_halts {rest : List Char} (h : Halts rest) (ds : List Digit) :
    spanDigits (ds.map Digit.char ++ rest) = (ds, rest) := by
  induction ds with
  | nil =>
      cases rest with
      | nil => rfl
      | cons c rest => simp [spanDigits, h.ofChar?_eq_none]
  | cons d ds ih => simp [spanDigits, Digit.ofChar?_char, ih]

theorem spanDigits_map_char (ds : List Digit) : spanDigits (ds.map Digit.char) = (ds, []) := by
  simpa using spanDigits_of_halts halts_nil ds

theorem readNat?_map_char {ds : List Digit} (h : ds ≠ []) :
    readNat? (ds.map Digit.char) = some (value ds) := by
  cases ds with
  | nil => exact absurd rfl h
  | cons d ds =>
      have hspan := spanDigits_map_char (d :: ds)
      rw [List.map_cons] at hspan ⊢
      unfold readNat?
      split
      case h_1 he => exact absurd (List.cons.inj he).1 (Digit.char_ne rfl d)
      case h_2 => simp only [hspan]

theorem digits_ne_nil (n : Nat) : digits n ≠ [] := by
  unfold digits digitsAux
  split <;> simp

namespace Numeral

def fractionText : Option (List Digit) → List Char
  | none => []
  | some ds => '.' :: ds.map Digit.char

def tailText : Option Int → List Char
  | none => []
  | some e => exponentText e

def magnitude (n : Numeral) : List Char :=
  n.whole.map Digit.char ++ fractionText n.fraction ++ tailText n.exponent

theorem text_eq (n : Numeral) : n.text = signed n.negative n.magnitude := rfl

theorem exists_exponentText (e : Int) :
    ∃ cs, exponentText e = 'e' :: cs ∧ readExponent? cs = some e := by
  refine ⟨_, rfl, ?_⟩
  obtain ⟨d, ds, hds⟩ := List.exists_cons_of_ne_nil (digits_ne_nil e.natAbs)
  have hvalue : value (d :: ds) = e.natAbs := hds ▸ value_digits e.natAbs
  have hspan := spanDigits_map_char (d :: ds)
  rw [hds]
  by_cases he : e < 0
  · simp only [he, if_true, readExponent?, hspan, hvalue, Option.some.injEq]
    omega
  · simp only [he, if_false, readExponent?, hspan, hvalue, Bool.false_eq_true, Option.some.injEq]
    omega

theorem readTail?_tailText (negative : Bool) (whole : List Digit) (fraction : Option (List Digit))
    (exponent : Option Int) :
    readTail? negative whole fraction (tailText exponent) =
      some ⟨negative, whole, fraction, exponent⟩ := by
  cases exponent with
  | none => rfl
  | some e =>
      obtain ⟨cs, hcs, hread⟩ := exists_exponentText e
      simp [tailText, hcs, readTail?, hread]

theorem halts_tailText (exponent : Option Int) : Halts (tailText exponent) := by
  cases exponent with
  | none => exact halts_nil
  | some e => exact halts_cons rfl _

theorem readUnsigned?_magnitude (n : Numeral) : readUnsigned? n.negative n.magnitude = some n := by
  rcases n with ⟨negative, whole, fraction, exponent⟩
  have htail := readTail?_tailText negative whole fraction exponent
  unfold readUnsigned? magnitude
  cases fraction with
  | none =>
      have hspan := spanDigits_of_halts (halts_tailText exponent) whole
      simp only [fractionText, List.append_nil, hspan]
      cases exponent <;> exact htail
  | some fraction =>
      have hdot : Halts ('.' :: (fraction.map Digit.char ++ tailText exponent)) := halts_cons rfl _
      have hspan := spanDigits_of_halts (halts_tailText exponent) fraction
      simp only [fractionText, List.append_assoc, List.cons_append, spanDigits_of_halts hdot, hspan,
        htail]

end Numeral

theorem readDouble?_decimal {whole fraction : List Digit} (h : whole ++ fraction ≠ []) :
    readDouble? (whole.map Digit.char ++ '.' :: fraction.map Digit.char) =
      some (Numeral.nearest ⟨false, whole, some fraction, none⟩) := by
  have hread := Numeral.readUnsigned?_magnitude ⟨false, whole, some fraction, none⟩
  simp only [Numeral.magnitude, Numeral.fractionText, Numeral.tailText, List.append_nil] at hread
  have hdot : '.' ∈ lowerAscii (whole.map Digit.char ++ '.' :: fraction.map Digit.char) :=
    List.mem_map.mpr ⟨'.', by simp, rfl⟩
  have hword {word : String} (hw : '.' ∉ word.toList) :
      lowerAscii (whole.map Digit.char ++ '.' :: fraction.map Digit.char) ≠ word.toList :=
    fun he => hw (he ▸ hdot)
  have hhead {c : Char} {rest : List Char} (hc : Digit.ofChar? c = none) (hpoint : c ≠ '.') :
      whole.map Digit.char ++ '.' :: fraction.map Digit.char ≠ c :: rest := by
    intro he
    cases whole with
    | nil => exact hpoint (List.cons.inj he).1.symm
    | cons d whole => exact Digit.char_ne hc d (List.cons.inj he).1
  unfold readDouble?
  split
  next negative body hsign =>
    split at hsign
    case h_1 hw => exact absurd hw (hhead rfl (by decide))
    case h_2 hw => exact absurd hw (hhead rfl (by decide))
    case h_3 =>
      cases hsign
      have hinf := @hword "inf" (by decide)
      have hinfinity := @hword "infinity" (by decide)
      have hnan := @hword "nan" (by decide)
      simp only [hinf, hinfinity, hnan, or_self, if_false, hread]
      exact if_neg h

end DiceTray.Decimal
