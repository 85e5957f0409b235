import DiceTray.NumberFormat
import DiceTray.Proofs.Decimal.Strict
import DiceTray.Proofs.Number.Finite

namespace DiceTray

open Decimal

theorem Double.isNaN_eq_false_of_isFinite {x : Float} (h : x.isFinite = true) :
    x.isNaN = false := by
  change x.toModel.unpack.isFinite = true at h
  change x.toModel.unpack.isNaN = false
  cases hx : x.toModel.unpack with
  | notANumber =>
      rw [hx] at h
      cases h
  | infinity | zero | finite => rfl

theorem Double.isInf_eq_false_of_isFinite {x : Float} (h : x.isFinite = true) :
    x.isInf = false := by
  change x.toModel.unpack.isFinite = true at h
  change x.toModel.unpack.isInf = false
  cases hx : x.toModel.unpack with
  | infinity s =>
      rw [hx] at h
      cases h
  | notANumber | zero | finite => rfl

namespace Decimal

theorem isZero_eq_false_iff {d : Digit} : d.isZero = false ↔ d ≠ 0 := by
  revert d
  decide

theorem shape_fixedPlaces (places : Nat) (x : Float) :
    (fixedPlaces places x).1 ≠ [] ∧ (∀ ds, (fixedPlaces places x).1 = 0 :: ds → ds = []) ∧
      (fixedPlaces places x).2.length = places := by
  unfold fixedPlaces
  simp only
  generalize roundQuotient _ _ _ = n
  generalize hpadded : zeros (places + 1 - (digits n).length) ++ digits n = padded
  have hlength : padded.length = max (places + 1) (digits n).length := by
    rw [← hpadded, List.length_append, zeros, List.length_replicate]
    omega
  refine ⟨?_, ?_, ?_⟩
  · refine List.ne_nil_of_length_pos ?_
    rw [List.length_take]
    omega
  · intro ds hds
    rcases Nat.lt_or_ge places (digits n).length with hge | hlt
    · rw [Nat.sub_eq_zero_of_le hge] at hpadded
      obtain rfl : digits n = padded := hpadded
      obtain ⟨k, hk⟩ := Nat.exists_eq_succ_of_ne_zero (Nat.sub_ne_zero_of_lt hge)
      obtain ⟨d, es, hdigits⟩ := List.exists_cons_of_ne_nil (digits_ne_nil n)
      rw [hk, hdigits, List.take_succ_cons] at hds
      cases hds
      rw [eq_nil_of_digits hdigits, List.take_nil]
    · have hone := congrArg List.length hds
      rw [List.length_take, List.length_cons] at hone
      exact List.eq_nil_of_length_eq_zero (by omega)
  · rw [List.length_drop]
    omega

end Decimal

namespace NumberFormat

structure Groups where
  first : List Digit
  rest : List (List Digit)
  pos : 0 < first.length
  le : first.length ≤ 3
  full : ∀ ds ∈ rest, ds.length = 3

namespace Groups

variable {g : Groups} {separator : List Char}

def digits (g : Groups) : List Digit := g.first ++ g.rest.flatten

def chars (separator : List Char) (g : Groups) : List Char :=
  g.first.map Digit.char ++ g.rest.flatMap fun ds => separator ++ ds.map Digit.char

theorem chars_nil (g : Groups) : g.chars [] = g.digits.map Digit.char := by
  rw [chars, digits, List.map_append, List.map_flatten, List.flatMap]
  rfl

theorem mem_chars_cases {c : Char} (h : c ∈ g.chars separator) :
    c ∈ separator ∨ ∃ d ∈ g.digits, d.char = c := by
  unfold digits
  rcases List.mem_append.mp h with hfirst | hrest
  · obtain ⟨d, hd, rfl⟩ := List.mem_map.mp hfirst
    exact .inr ⟨d, List.mem_append_left _ hd, rfl⟩
  · obtain ⟨ds, hds, hc⟩ := List.mem_flatMap.mp hrest
    rcases List.mem_append.mp hc with hseparator | hdigit
    · exact .inl hseparator
    · obtain ⟨d, hd, rfl⟩ := List.mem_map.mp hdigit
      exact .inr ⟨d, List.mem_append_right _ (List.mem_flatten_of_mem hds hd), rfl⟩

theorem char_mem_chars {d : Digit} (h : d ∈ g.digits) : d.char ∈ g.chars separator := by
  rcases List.mem_append.mp h with hfirst | hrest
  · exact List.mem_append_left _ (List.mem_map_of_mem hfirst)
  · obtain ⟨ds, hds, hd⟩ := List.mem_flatten.mp hrest
    exact List.mem_append_right _ (List.mem_flatMap.mpr
      ⟨ds, hds, List.mem_append_right _ (List.mem_map_of_mem hd)⟩)

theorem length_flatten_mod {rest : List (List Digit)} (h : ∀ ds ∈ rest, ds.length = 3) :
    rest.flatten.length % 3 = 0 := by
  induction rest with
  | nil => rfl
  | cons ds rest ih =>
      rw [List.flatten_cons, List.length_append, h ds List.mem_cons_self, Nat.add_mod_left]
      exact ih fun ds hds => h ds (List.mem_cons_of_mem _ hds)

theorem length_digits_mod (g : Groups) : g.digits.length % 3 = g.first.length % 3 := by
  rw [digits, List.length_append, Nat.add_mod, length_flatten_mod g.full, Nat.add_zero, Nat.mod_mod]

end Groups

theorem group_cons_cons (separator : Option Char) (d e : Digit) (ds : List Digit) :
    group separator (d :: e :: ds) =
      d.char :: ((if (e :: ds).length % 3 = 0 then separator.toList else []) ++
        group separator (e :: ds)) := by
  cases separator with
  | none => simp [group]
  | some c =>
      by_cases hmod : (e :: ds).length % 3 = 0
      · rw [if_pos hmod]
        exact group.eq_3 d (e :: ds) c nofun hmod
      · rw [if_neg hmod]
        exact group.eq_4 d (e :: ds) (some c) nofun fun _ _ => hmod

theorem exists_groups {ds : List Digit} (h : ds ≠ []) :
    ∃ g : Groups, g.digits = ds ∧ ∀ separator : Option Char,
      group separator ds = g.chars separator.toList := by
  induction ds with
  | nil => exact absurd rfl h
  | cons d ds ih =>
      cases ds with
      | nil => exact ⟨⟨[d], [], Nat.one_pos, by simp, nofun⟩, rfl, fun _ => rfl⟩
      | cons e es =>
          obtain ⟨g, hdigits, hgroup⟩ := ih nofun
          have hmod := g.length_digits_mod
          have hpos := g.pos
          have hle := g.le
          rw [hdigits] at hmod
          by_cases hfull : (e :: es).length % 3 = 0
          · refine ⟨⟨[d], g.first :: g.rest, Nat.one_pos, by simp, ?_⟩, ?_, fun separator => ?_⟩
            · rintro ds (_ | ⟨_, hds⟩)
              · omega
              · exact g.full ds hds
            · exact congrArg (d :: ·) hdigits
            · rw [group_cons_cons, if_pos hfull, hgroup]
              simp [Groups.chars]
          · refine ⟨⟨d :: g.first, g.rest, Nat.succ_pos _, ?_, g.full⟩, ?_, fun separator => ?_⟩
            · rw [List.length_cons]
              omega
            · exact congrArg (d :: ·) hdigits
            · rw [group_cons_cons, if_neg hfull, hgroup]
              rfl

section Fraction

theorem length_dropTrailingZeros_le (ds : List Digit) :
    (dropTrailingZeros ds).length ≤ ds.length := by
  rw [dropTrailingZeros, List.length_reverse]
  exact (List.dropWhile_sublist _).length_le.trans_eq List.length_reverse

theorem getLast?_dropTrailingZeros (ds : List Digit) :
    (dropTrailingZeros ds).getLast? ≠ some 0 := by
  rw [dropTrailingZeros, List.getLast?_reverse]
  intro h
  have hnot := List.head?_dropWhile_not Digit.isZero ds.reverse
  rw [h] at hnot
  cases hnot

theorem exists_ne_zero_iff {whole fraction : List Digit} (h : fraction.getLast? ≠ some 0) :
    (!(whole.all Digit.isZero && fraction.isEmpty)) = true ↔ ∃ d ∈ whole ++ fraction, d ≠ 0 := by
  have hall : whole.all Digit.isZero = false ↔ ∃ d ∈ whole, d ≠ 0 := by
    simp only [List.all_eq_false, Bool.not_eq_true, isZero_eq_false_iff]
  rw [Bool.not_eq_true', Bool.and_eq_false_iff, hall, List.isEmpty_eq_false_iff]
  constructor
  · rintro (⟨d, hd, hne⟩ | hne)
    · exact ⟨d, List.mem_append_left _ hd, hne⟩
    · refine ⟨fraction.getLast hne, List.mem_append_right _ (List.getLast_mem hne), fun hzero => ?_⟩
      rw [List.getLast?_eq_some_getLast hne, hzero] at h
      exact h rfl
  · rintro ⟨d, hd, hne⟩
    rcases List.mem_append.mp hd with hd | hd
    · exact .inl ⟨d, hd, hne⟩
    · exact .inr (List.ne_nil_of_mem hd)

end Fraction

def tail (f : NumberFormat) (fraction : List Digit) : List Char :=
  if fraction = [] then [] else f.point :: fraction.map Digit.char

theorem exists_layout {x : Float} (h : x.isFinite = true) :
    ∃ (negative : Bool) (g : Groups) (fraction : List Digit),
      (negative = true ↔ x < 0.0 ∧ ∃ d ∈ g.digits ++ fraction, d ≠ 0) ∧
      (∀ ds, g.digits = 0 :: ds → ds = []) ∧ fraction.length ≤ maxPlaces ∧
      fraction.getLast? ≠ some 0 ∧
      ∀ f : NumberFormat, (f.text x).toList =
        Numeral.signed negative (g.chars f.grouping.toList ++ f.tail fraction) := by
  obtain ⟨hwhole, hleading, hlength⟩ := shape_fixedPlaces maxPlaces x
  obtain ⟨g, hdigits, hgroup⟩ := exists_groups hwhole
  have hlast := getLast?_dropTrailingZeros (fixedPlaces maxPlaces x).2
  have hplaces := length_dropTrailingZeros_le (fixedPlaces maxPlaces x).2
  generalize hfraction : dropTrailingZeros (fixedPlaces maxPlaces x).2 = fraction at hlast hplaces
  refine ⟨decide (x < 0.0) && !(g.digits.all Digit.isZero && fraction.isEmpty), g, fraction, ?_, ?_,
    hlength ▸ hplaces, hlast, fun f => ?_⟩
  · rw [Bool.and_eq_true, decide_eq_true_iff, exists_ne_zero_iff hlast]
  · rwa [hdigits]
  · rw [text, String.toList_ofList, chars, Double.isNaN_eq_false_of_isFinite h,
      Double.isInf_eq_false_of_isFinite h]
    simp only [hfraction, hgroup, hdigits, tail, List.isEmpty_iff]
    rfl

/-- Separators that are neither mistaken for each other nor for what stands around them. -/
structure Distinct (f : NumberFormat) : Prop where
  point : Digit.ofChar? f.point = none ∧ f.point ≠ '-'
  grouping : ∀ c ∈ f.grouping, Digit.ofChar? c = none ∧ c ≠ '-' ∧ c ≠ f.point

def plainly (f : NumberFormat) (cs : List Char) : List Char :=
  (cs.filter fun c => f.grouping != some c).map fun c => if c = f.point then '.' else c

section Plainly

variable {f : NumberFormat}

theorem plainly_append (f : NumberFormat) (cs cs' : List Char) :
    f.plainly (cs ++ cs') = f.plainly cs ++ f.plainly cs' := by
  rw [plainly, List.filter_append, List.map_append]
  rfl

theorem plainly_cons {c : Char} (h : f.grouping ≠ some c) (cs : List Char) :
    f.plainly (c :: cs) = (if c = f.point then '.' else c) :: f.plainly cs := by
  simp [plainly, h]

theorem plainly_digits (hf : f.Distinct) (ds : List Digit) :
    f.plainly (ds.map Digit.char) = ds.map Digit.char := by
  induction ds with
  | nil => rfl
  | cons d ds ih =>
      have hgrouping : f.grouping ≠ some d.char := fun h =>
        Digit.char_ne (hf.grouping _ h).1 d rfl
      rw [List.map_cons, plainly_cons hgrouping, if_neg (Digit.char_ne hf.point.1 d), ih]

theorem plainly_grouping (f : NumberFormat) : f.plainly f.grouping.toList = [] := by
  unfold plainly
  cases f.grouping with
  | none => rfl
  | some c => simp

theorem plainly_chars (hf : f.Distinct) (g : Groups) :
    f.plainly (g.chars f.grouping.toList) = g.digits.map Digit.char := by
  have hrest (rest : List (List Digit)) :
      f.plainly (rest.flatMap fun ds => f.grouping.toList ++ ds.map Digit.char) =
        rest.flatten.map Digit.char := by
    induction rest with
    | nil => rfl
    | cons ds rest ih =>
        rw [List.flatMap_cons, plainly_append, plainly_append, plainly_grouping, plainly_digits hf,
          ih, List.nil_append, List.flatten_cons, List.map_append]
  rw [Groups.chars, plainly_append, plainly_digits hf, hrest, Groups.digits, List.map_append]

theorem plainly_tail (hf : f.Distinct) (fraction : List Digit) :
    f.plainly (f.tail fraction) = plain.tail fraction := by
  unfold tail
  split
  · rfl
  · have hgrouping : f.grouping ≠ some f.point := fun h => (hf.grouping _ h).2.2 rfl
    rw [plainly_cons hgrouping, if_pos rfl, plainly_digits hf]
    rfl

theorem plainly_signed (hf : f.Distinct) (negative : Bool) (cs : List Char) :
    f.plainly (Numeral.signed negative cs) = Numeral.signed negative (f.plainly cs) := by
  cases negative with
  | false => rfl
  | true =>
      have hgrouping : f.grouping ≠ some '-' := fun h => (hf.grouping _ h).2.1 rfl
      refine (plainly_cons hgrouping cs).trans ?_
      rw [if_neg hf.point.2.symm]
      rfl

end Plainly

section Signs

variable {f : NumberFormat} {g : Groups} {fraction : List Digit}

theorem mem_unsigned_cases {c : Char} (h : c ∈ g.chars f.grouping.toList ++ f.tail fraction) :
    c ∈ f.grouping ∨ c = f.point ∨ ∃ d ∈ g.digits ++ fraction, d.char = c := by
  rcases List.mem_append.mp h with hchars | htail
  · rcases Groups.mem_chars_cases hchars with hgrouping | ⟨d, hd, rfl⟩
    · exact .inl (Option.mem_toList.mp hgrouping)
    · exact .inr (.inr ⟨d, List.mem_append_left _ hd, rfl⟩)
  · unfold tail at htail
    split at htail
    · cases htail
    · rcases List.mem_cons.mp htail with hpoint | hdigit
      · exact .inr (.inl hpoint)
      · obtain ⟨d, hd, rfl⟩ := List.mem_map.mp hdigit
        exact .inr (.inr ⟨d, List.mem_append_right _ hd, rfl⟩)

theorem char_mem_unsigned {d : Digit} (h : d ∈ g.digits ++ fraction) :
    d.char ∈ g.chars f.grouping.toList ++ f.tail fraction := by
  rcases List.mem_append.mp h with hwhole | hfraction
  · exact List.mem_append_left _ (Groups.char_mem_chars hwhole)
  · refine List.mem_append_right _ ?_
    rw [tail, if_neg (List.ne_nil_of_mem hfraction)]
    exact List.mem_cons_of_mem _ (List.mem_map_of_mem hfraction)

theorem minus_not_mem_unsigned (hf : f.Distinct) :
    '-' ∉ g.chars f.grouping.toList ++ f.tail fraction := by
  intro h
  rcases mem_unsigned_cases h with hgrouping | hpoint | ⟨d, -, hd⟩
  · exact (hf.grouping _ hgrouping).2.1 rfl
  · exact hf.point.2 hpoint.symm
  · exact Digit.char_ne rfl d hd

theorem mem_of_char_mem_unsigned (hf : f.Distinct) {d : Digit}
    (h : d.char ∈ g.chars f.grouping.toList ++ f.tail fraction) : d ∈ g.digits ++ fraction := by
  rcases mem_unsigned_cases h with hgrouping | hpoint | ⟨e, he, hchar⟩
  · exact absurd rfl (Digit.char_ne (hf.grouping _ hgrouping).1 d)
  · exact absurd hpoint (Digit.char_ne hf.point.1 d)
  · have heq := congrArg Digit.ofChar? hchar
    rw [Digit.ofChar?_char, Digit.ofChar?_char, Option.some.injEq] at heq
    exact heq ▸ he

theorem mem_signed {negative : Bool} {c : Char} {cs : List Char} :
    c ∈ Numeral.signed negative cs ↔ (negative = true ∧ c = '-') ∨ c ∈ cs := by
  cases negative with
  | false => simp [Numeral.signed]
  | true => simp [Numeral.signed]

end Signs

theorem text_of_distinct {f : NumberFormat} (hf : f.Distinct) {x : Float}
    (hx : x.isFinite = true) :
    (∃ (negative : Bool) (g : Groups) (fraction : List Digit),
      (∀ ds, g.digits = 0 :: ds → ds = []) ∧ fraction.length ≤ 2 ∧
      fraction.getLast? ≠ some 0 ∧
      (f.text x).toList =
        Numeral.signed negative (g.chars f.grouping.toList ++ f.tail fraction)) ∧
    f.plainly (f.text x).toList = (plain.text x).toList ∧
    ('-' ∈ (f.text x).toList ↔
      x < 0.0 ∧ ∃ d : Digit, d ≠ 0 ∧ d.char ∈ (f.text x).toList) := by
  obtain ⟨negative, g, fraction, hnegative, hleading, hlength, hlast, htext⟩ := exists_layout hx
  refine ⟨⟨negative, g, fraction, hleading, hlength, hlast, htext f⟩, ?_, ?_⟩
  · rw [htext f, htext plain, plainly_signed hf, plainly_append, plainly_chars hf, plainly_tail hf]
    exact congrArg (fun cs => Numeral.signed negative (cs ++ _)) g.chars_nil.symm
  · have hminus : '-' ∈ (f.text x).toList ↔ negative = true := by
      rw [htext f, mem_signed]
      simp [minus_not_mem_unsigned hf]
    have hdigit (d : Digit) : d.char ∈ (f.text x).toList ↔ d ∈ g.digits ++ fraction := by
      rw [htext f, mem_signed]
      constructor
      · rintro (⟨-, hd⟩ | hd)
        · exact absurd hd (Digit.char_ne rfl d)
        · exact mem_of_char_mem_unsigned hf hd
      · exact fun hd => .inr (char_mem_unsigned hd)
    rw [hminus, hnegative]
    simp only [hdigit, and_comm]

theorem distinct_german : german.Distinct := by
  refine ⟨by decide, fun c hc => ?_⟩
  cases hc
  decide

theorem text_of_distinct_german :
    german.text (-1234567.891) = "-1.234.567,89" ∧
    (∃ (negative : Bool) (g : Groups) (fraction : List Digit),
      (∀ ds, g.digits = 0 :: ds → ds = []) ∧ fraction.length ≤ 2 ∧
      fraction.getLast? ≠ some 0 ∧
      (german.text (-1234567.891)).toList =
        Numeral.signed negative (g.chars german.grouping.toList ++ german.tail fraction)) ∧
    german.plainly (german.text (-1234567.891)).toList = (plain.text (-1234567.891)).toList ∧
    ('-' ∈ (german.text (-1234567.891)).toList ↔
      (-1234567.891 : Float) < 0.0 ∧
        ∃ d : Digit, d ≠ 0 ∧ d.char ∈ (german.text (-1234567.891)).toList) :=
  ⟨by decide +kernel, text_of_distinct distinct_german (by decide +kernel)⟩

end NumberFormat

end DiceTray
