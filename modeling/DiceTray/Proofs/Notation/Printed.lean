import DiceTray.Proofs.Notation.Grammar

namespace DiceTray

open Decimal

namespace Decimal

theorem digitChar_val (d : Digit) : Nat.digitChar d = d.char := by
  revert d
  decide

theorem toDigits_eq_digitsAux {fuel n : Nat} (h : n < fuel) :
    Nat.toDigits 10 n = (digitsAux fuel n).map Digit.char := by
  induction fuel generalizing n with
  | zero => omega
  | succ fuel ih =>
      have hlast : Nat.digitChar (n % 10) = Digit.char (Fin.ofNat 10 n) :=
        digitChar_val (Fin.ofNat 10 n)
      rw [Nat.toDigits_eq_if (by decide), digitsAux]
      split
      case isTrue hn =>
          rw [Nat.mod_eq_of_lt hn] at hlast
          rw [hlast]
          rfl
      case isFalse hn =>
          rw [ih (by omega), hlast, List.map_append]
          rfl

theorem toList_toString (n : Nat) : (toString n).toList = (digits n).map Digit.char :=
  Nat.toList_repr.trans (toDigits_eq_digitsAux (Nat.lt_succ_self n))

end Decimal

namespace Symbol

def ofInt (n : Int) : List Symbol :=
  if n < 0 then [.minus, .integer (digits n.natAbs)] else [.integer (digits n.natAbs)]

theorem scan_ofInt (n : Int) {rest : List Char} (hrest : Halts rest)
    (hdot : rest.head? ≠ some '.') :
    scan .none ((Numeral.ofInt n).text ++ rest) = (scan .none rest).map (ofInt n ++ ·) := by
  have hdigits := scan_of_halts (digits_ne_nil n.natAbs) hrest hdot
  have htext : (Numeral.ofInt n).text =
      Numeral.signed (n < 0) ((digits n.natAbs).map Digit.char) := by
    simp [Numeral.text, Numeral.ofInt]
  rw [htext, ofInt]
  by_cases hn : n < 0
  · simp only [hn, decide_true, Numeral.signed, if_true, List.cons_append]
    rw [scan_mark rfl, hdigits, Option.map_map]
    rfl
  · simp only [hn, decide_false, Numeral.signed, if_false, Bool.false_eq_true]
    exact hdigits

end Symbol

namespace Faces

def symbols (f : Faces) : List Symbol :=
  if f = fudge then [.fudge]
  else if f.low = 1 then Symbol.ofInt f.high.toInt
  else .openBracket :: (Symbol.ofInt f.low.toInt ++ .comma ::
    (Symbol.ofInt f.high.toInt ++ [.closeBracket]))

theorem toList_wordText (n : Int64) : (wordText n).toList = (Numeral.ofInt n.toInt).text :=
  String.toList_ofList

theorem scan_wordText (n : Int64) :
    Symbol.scan .none (wordText n).toList = some (Symbol.ofInt n.toInt) := by
  have hscan := Symbol.scan_ofInt n.toInt halts_nil nofun
  rw [List.append_nil] at hscan
  rw [toList_wordText, hscan]
  exact congrArg some (List.append_nil _)

theorem scan_pair (low high : Int64) :
    Symbol.scan .none ("[" ++ wordText low ++ "," ++ wordText high ++ "]").toList =
      some (.openBracket :: (Symbol.ofInt low.toInt ++ .comma ::
        (Symbol.ofInt high.toInt ++ [.closeBracket]))) := by
  have hopen : ("[" ++ wordText low ++ "," ++ wordText high ++ "]").toList =
      '[' :: ((Numeral.ofInt low.toInt).text ++
        ',' :: ((Numeral.ofInt high.toInt).text ++ [']'])) := by
    simp [toList_wordText]
  have hclose : Symbol.scan .none [']'] = some [.closeBracket] := rfl
  have hcomma : Halts (',' :: ((Numeral.ofInt high.toInt).text ++ [']'])) := halts_cons rfl _
  have hbracket : Halts [']'] := halts_cons rfl []
  rw [hopen, Symbol.scan_mark rfl, Symbol.scan_ofInt _ hcomma nofun, Symbol.scan_mark rfl,
    Symbol.scan_ofInt _ hbracket nofun, hclose]
  rfl

theorem scan_text (f : Faces) : Symbol.scan .none f.text.toList = some f.symbols := by
  unfold text symbols
  split
  case isTrue => rfl
  case isFalse =>
      split
      case isTrue => exact scan_wordText f.high
      case isFalse => exact scan_pair f.low f.high

structure Written (f : Faces) : Prop where
  low_le_high : f.low ≤ f.high
  low : Fits f.low.toInt.natAbs
  high : Fits f.high.toInt.natAbs

theorem between_of_le {a b : Int64} (h : a ≤ b) : between a b = ⟨a, b⟩ :=
  if_neg (Int64.not_lt.mpr h)

theorem written_between {a b : Int64} (ha : Fits a.toInt.natAbs) (hb : Fits b.toInt.natAbs) :
    (between a b).Written := by
  have hle := low_le_high_between a b
  unfold between at hle ⊢
  split at hle
  case isTrue h =>
      rw [if_pos h]
      exact ⟨hle, hb, ha⟩
  case isFalse h =>
      rw [if_neg h]
      exact ⟨hle, ha, hb⟩

end Faces

namespace Notation

variable {ls : List Symbol.Lexeme} {x : Int64} {f : Faces}

theorem fits_natAbs_of_bound (h : Bound ls x) : Fits x.toInt.natAbs := by
  cases h with
  | plain _ hn => rwa [toInt_ofInt hn, Int.natAbs_natCast]
  | @negated _ _ n _ hn =>
      have hneg : Fits (-(n : Int)) := by
        unfold Fits at hn ⊢
        omega
      rwa [toInt_ofInt hneg, Int.natAbs_neg, Int.natAbs_natCast]

theorem written_loneFaces (h : Fits x.toInt.natAbs) : (loneFaces x).Written := by
  rw [← ofBounds_none]
  refine Faces.written_between ?_ h
  rw [Option.getD_none]
  split <;> decide

theorem written_of_facesOf (h : FacesOf ls f) : f.Written := by
  cases h with
  | percent => exact ⟨by decide, by decide, by decide⟩
  | fudge => exact ⟨by decide, by decide, by decide⟩
  | lone hx => exact written_loneFaces (fits_natAbs_of_bound hx)
  | bracketed hx => exact written_loneFaces (fits_natAbs_of_bound hx)
  | pair hx hy =>
      rw [← ofBounds_some]
      exact Faces.written_between (fits_natAbs_of_bound hx) (fits_natAbs_of_bound hy)

theorem bound?_ofInt (h : Fits x.toInt.natAbs) (rest : List Symbol) :
    bound? (Symbol.ofInt x.toInt ++ rest) = some (x, rest) := by
  have hword : word? (digits x.toInt.natAbs) = some (.ofInt x.toInt.natAbs) :=
    word?_eq_some_iff.mpr (by rw [value_digits]; exact ⟨h, rfl⟩)
  unfold Symbol.ofInt
  split
  case isTrue hneg =>
      have hx : -Int64.ofInt (x.toInt.natAbs : Int) = x := by
        rw [← Int64.ofInt_neg, ← Int.eq_neg_natAbs_of_nonpos (Int.le_of_lt hneg), Int64.ofInt_toInt]
      simp only [List.cons_append, List.nil_append, bound?, hword, Option.map_some, hx]
  case isFalse hpos =>
      have hx : Int64.ofInt (x.toInt.natAbs : Int) = x := by
        rw [Int.natAbs_of_nonneg (Int.not_lt.mp hpos), Int64.ofInt_toInt]
      simp only [List.cons_append, List.nil_append, bound?, hword, Option.map_some, hx]

theorem faces?_symbols (h : f.Written) : faces? f.symbols = some f := by
  unfold Faces.symbols
  split
  case isTrue hf =>
      rw [hf]
      rfl
  case isFalse =>
      split
      case isTrue hlow =>
          have hbound := bound?_ofInt h.high []
          rw [List.append_nil] at hbound
          have hle : 1 ≤ f.high := hlow ▸ h.low_le_high
          have hpos : ¬ f.high < 0 := Int64.not_lt.mpr (Int64.le_trans (by decide) hle)
          rw [faces?_of_bound? hbound, Faces.ofBounds, Option.getD_none, if_neg hpos,
            Faces.between_of_le hle, ← hlow]
      case isFalse =>
          have hlow := bound?_ofInt h.low
            (.comma :: (Symbol.ofInt f.high.toInt ++ [.closeBracket]))
          have hhigh := bound?_ofInt h.high [.closeBracket]
          simp only [faces?, bracketed?, hlow, hhigh, Faces.ofBounds, Option.getD_some,
            Faces.between_of_le h.low_le_high]

theorem denotes_of_read {s : String} {n : Notation} (h : read s = .ok n) : ∃ ls, Denotes ls n := by
  obtain ⟨ls, hls⟩ := Symbol.exists_lexes s.toList
  refine ⟨ls, (ofText?_eq_some_iff hls).mp ?_⟩
  unfold read at h
  split at h
  case h_1 hs =>
      cases h
      exact hs
  case h_2 => cases h

theorem read_of_scan {s : String} (symbols : List Symbol) {n : Notation}
    (hs : Symbol.scan .none s.toList = some symbols) (hn : ofSymbols? symbols = some n) :
    read s = .ok n := by
  rw [read, ofText?, Symbol.ofChars?, hs, Option.bind_some, hn]

theorem read_dice_of_written {count : Nat} (hcount : Fits count) (hpos : 0 < count)
    (h : f.Written) : read (toString count ++ "d" ++ f.text) = .ok (.dice count f) := by
  have hword : word? (digits count) = some (.ofInt count) :=
    word?_eq_some_iff.mpr (by rw [value_digits]; exact ⟨hcount, rfl⟩)
  have htext : (toString count ++ "d" ++ f.text).toList =
      (digits count).map Digit.char ++ 'd' :: f.text.toList := by
    simp only [String.toList_append, toList_toString, List.append_assoc]
    rfl
  have hdie : Halts ('d' :: f.text.toList) := halts_cons rfl _
  refine read_of_scan (.integer (digits count) :: .die :: f.symbols) ?_ ?_
  · rw [htext, Symbol.scan_of_halts (digits_ne_nil count) hdie nofun, Symbol.scan_mark rfl,
      Faces.scan_text]
    rfl
  · rw [ofSymbols?, hword]
    refine dice?_eq_some_iff.mpr ⟨?_, f, faces?_symbols h, ?_⟩
    · rw [Int64.lt_iff_toInt_lt, toInt_ofInt hcount]
      exact Int.natCast_pos.mpr hpos
    · rw [toInt_ofInt hcount, Int.toNat_natCast]

theorem read_printed (s : String) :
    (∀ count faces, read s = .ok (.dice count faces) →
      read (toString count ++ "d" ++ faces.text) = .ok (.dice count faces)) ∧
      ∀ n : Int64, read s = .ok (.fixed (.int n)) →
        read (Number.int n).text = .ok (.fixed (.int n)) := by
  refine ⟨fun count faces h => ?_, fun n h => ?_⟩
  · obtain ⟨ls, hdice⟩ := denotes_of_read h
    cases hdice with
    | die hf => exact read_dice_of_written (by decide) (by decide) (written_of_facesOf hf)
    | dice _ hcount hpos hf => exact read_dice_of_written hcount hpos (written_of_facesOf hf)
  · obtain ⟨ls, hfixed⟩ := denotes_of_read h
    cases hfixed with
    | integer hx =>
        have hbound := bound?_ofInt (fits_natAbs_of_bound hx) []
        rw [List.append_nil] at hbound
        exact read_of_scan _ (Faces.scan_wordText n) (ofSymbols?_of_bound? hbound)

theorem read_printed_swapped_bounds :
    let faces : Faces := ⟨-9223372036854775807, -1⟩
    read " 3 D [-1, -9223372036854775807]" = .ok (.dice 3 faces) ∧
      toString 3 ++ "d" ++ faces.text = "3d[-9223372036854775807,-1]" ∧
      read "3d[-9223372036854775807,-1]" = .ok (.dice 3 faces) ∧
      read " - 007" = .ok (.fixed (.int (-7))) ∧ (Number.int (-7)).text = "-7" ∧
      read "-7" = .ok (.fixed (.int (-7))) := by
  intro faces
  have hdice : read " 3 D [-1, -9223372036854775807]" = .ok (.dice 3 faces) := rfl
  have htext : toString 3 ++ "d" ++ faces.text = "3d[-9223372036854775807,-1]" := by
    decide +kernel
  have hfixed : read " - 007" = .ok (.fixed (.int (-7))) := rfl
  have hword : (Number.int (-7)).text = "-7" := by decide +kernel
  exact ⟨hdice, htext, htext ▸ (read_printed _).1 3 faces hdice, hfixed, hword,
    hword ▸ (read_printed _).2 (-7) hfixed⟩

end Notation

end DiceTray
