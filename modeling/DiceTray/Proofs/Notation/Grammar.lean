import DiceTray.Notation
import DiceTray.Proofs.Decimal.Reading
import DiceTray.Proofs.Notation.Lexeme

namespace DiceTray

open Decimal DiceTray.Symbol

namespace Notation

inductive Bound : List Lexeme → Int64 → Prop where
  | plain {w : List Char} {n : Nat} (hw : readNat? w = some n) (hn : Fits n) :
      Bound [.word .integer w] (.ofInt n)
  | negated {m w : List Char} {n : Nat} (hw : readNat? w = some n) (hn : Fits n) :
      Bound [.word .minus m, .word .integer w] (.ofInt (-n))

def loneFaces (x : Int64) : Faces := if 0 < x then ⟨1, x⟩ else if x = 0 then ⟨0, 1⟩ else ⟨x, -1⟩

inductive FacesOf : List Lexeme → Faces → Prop where
  | percent {w : List Char} : FacesOf [.word .percent w] ⟨1, 100⟩
  | fudge {w : List Char} : FacesOf [.word .fudge w] ⟨-1, 1⟩
  | lone {ls : List Lexeme} {x : Int64} (h : Bound ls x) : FacesOf ls (loneFaces x)
  | bracketed {u v : List Char} {ls : List Lexeme} {x : Int64} (h : Bound ls x) :
      FacesOf (.word .openBracket u :: (ls ++ [.word .closeBracket v])) (loneFaces x)
  | pair {u v w : List Char} {ls ms : List Lexeme} {x y : Int64} (hx : Bound ls x)
      (hy : Bound ms y) :
      FacesOf (.word .openBracket u :: (ls ++ .word .comma v :: (ms ++ [.word .closeBracket w])))
        ⟨min x y, max x y⟩

inductive Denotes : List Lexeme → Notation → Prop where
  | integer {ls : List Lexeme} {x : Int64} (h : Bound ls x) : Denotes ls (.fixed (.int x))
  | decimal {w : List Char} {x : Float} (h : readDouble? w = some x) :
      Denotes [.word .decimal w] (.fixed (.real x))
  | negatedDecimal {m w : List Char} {x : Float} (h : readDouble? w = some x) :
      Denotes [.word .minus m, .word .decimal w] (.fixed (.real (-x)))
  | die {w : List Char} {ls : List Lexeme} {f : Faces} (h : FacesOf ls f) :
      Denotes (.word .die w :: ls) (.dice 1 f)
  | dice {u v : List Char} {n : Nat} {ls : List Lexeme} {f : Faces} (hu : readNat? u = some n)
      (hn : Fits n) (hpos : 0 < n) (h : FacesOf ls f) :
      Denotes (.word .integer u :: .word .die v :: ls) (.dice n f)

theorem ofBounds_some (a b : Int64) : Faces.ofBounds (some a) b = ⟨min a b, max a b⟩ := by
  change Faces.between a b = ⟨if a ≤ b then a else b, if a ≤ b then b else a⟩
  unfold Faces.between
  split
  case isTrue h => rw [if_neg (Int64.not_le.mpr h), if_neg (Int64.not_le.mpr h)]
  case isFalse h => rw [if_pos (Int64.not_lt.mp h), if_pos (Int64.not_lt.mp h)]

theorem ofBounds_none (x : Int64) : Faces.ofBounds none x = loneFaces x := by
  change Faces.between (if x < 0 then -1 else 1) x = _
  have hone : (1 : Int64).toInt = 1 ∧ (-1 : Int64).toInt = -1 ∧ (0 : Int64).toInt = 0 :=
    ⟨rfl, rfl, rfl⟩
  unfold Faces.between loneFaces
  simp only [Int64.lt_iff_toInt_lt, ← Int64.toInt_inj, hone]
  rcases Int.lt_trichotomy x.toInt 0 with hx | hx | hx
  · rw [if_pos hx, if_neg (by omega : ¬ 0 < x.toInt), if_neg (by omega : ¬ x.toInt = 0)]
    split
    case isTrue => rfl
    case isFalse h =>
      have hlast : x = -1 := Int64.toInt_inj.mp (by omega)
      rw [hlast]
  · obtain rfl : x = 0 := Int64.toInt_inj.mp hx
    rfl
  · rw [if_neg (by omega : ¬ x.toInt < 0), if_pos hx,
      if_neg (by omega : ¬ x.toInt < (1 : Int64).toInt)]

theorem word?_eq_some_iff {ds : List Digit} {x : Int64} :
    word? ds = some x ↔ Fits (value ds) ∧ x = .ofInt (value ds) := by
  unfold word? fit?
  split <;> simp_all [eq_comm]

section

variable {ls ms ns : List Lexeme} {symbols rest : List Symbol} {x : Int64} {f : Faces}
  {n : Notation}

theorem exists_of_bound? (h : List.Forall₂ Spells ls symbols)
    (hx : bound? symbols = some (x, rest)) :
    ∃ ms ns, ls = ms ++ ns ∧ Bound ms x ∧ List.Forall₂ Spells ns rest := by
  unfold bound? at hx
  split at hx
  case h_1 =>
    obtain ⟨k, hk, he⟩ := Option.map_eq_some_iff.mp hx
    cases he
    obtain ⟨hfits, rfl⟩ := word?_eq_some_iff.mp hk
    obtain _ | ⟨hm, _ | ⟨hi, h⟩⟩ := h
    cases hm
    cases hi with
    | integer hds =>
        refine ⟨[_, _], _, rfl, ?_, h⟩
        rw [← Int64.ofInt_neg]
        exact .negated (readNat?_map_char hds) hfits
  case h_2 =>
    obtain ⟨k, hk, he⟩ := Option.map_eq_some_iff.mp hx
    cases he
    obtain ⟨hfits, rfl⟩ := word?_eq_some_iff.mp hk
    obtain _ | ⟨hi, h⟩ := h
    cases hi with
    | integer hds => exact ⟨[_], _, rfl, .plain (readNat?_map_char hds) hfits, h⟩
  case h_3 => cases hx

theorem exists_word_of_integer {w : List Char} {s : Symbol} {k : Nat}
    (h : Spells (.word .integer w) s) (hw : readNat? w = some k) :
    ∃ ds, s = .integer ds ∧ value ds = k := by
  cases h with
  | integer hds => exact ⟨_, rfl, by simpa [readNat?_map_char hds] using hw⟩

theorem exists_bound?_of_bound (hms : Bound ms x) (h : List.Forall₂ Spells (ms ++ ns) symbols) :
    ∃ rest, bound? symbols = some (x, rest) ∧ List.Forall₂ Spells ns rest := by
  cases hms with
  | plain hw hn =>
      obtain _ | ⟨hi, h⟩ := h
      obtain ⟨ds, rfl, rfl⟩ := exists_word_of_integer hi hw
      exact ⟨_, by rw [bound?, word?_eq_some_iff.mpr ⟨hn, rfl⟩]; rfl, h⟩
  | negated hw hn =>
      obtain _ | ⟨hm, _ | ⟨hi, h⟩⟩ := h
      obtain ⟨ds, rfl, rfl⟩ := exists_word_of_integer hi hw
      cases hm
      refine ⟨_, ?_, h⟩
      rw [bound?, word?_eq_some_iff.mpr ⟨hn, rfl⟩, Int64.ofInt_neg]
      rfl

theorem faces?_of_bound? (h : bound? symbols = some (x, [])) :
    faces? symbols = some (Faces.ofBounds none x) := by
  unfold faces?
  split
  case h_1 => cases h
  case h_2 => cases h
  case h_3 => cases h
  case h_4 => rw [h]

theorem eq_of_spells_closeBracket (h : List.Forall₂ Spells ns [.closeBracket]) :
    ∃ v, ns = [.word .closeBracket v] := by
  obtain _ | ⟨hc, _ | _⟩ := h
  cases hc
  exact ⟨_, rfl⟩

theorem facesOf_of_bracketed? (h : List.Forall₂ Spells ls symbols)
    (hf : bracketed? symbols = some f) (u : List Char) :
    FacesOf (.word .openBracket u :: ls) f := by
  unfold bracketed? at hf
  split at hf
  case h_1 hx =>
    cases hf
    obtain ⟨ms, ns, rfl, hms, hns⟩ := exists_of_bound? h hx
    obtain ⟨v, rfl⟩ := eq_of_spells_closeBracket hns
    rw [ofBounds_none]
    exact .bracketed hms
  case h_2 hx =>
    obtain ⟨ms, ns, rfl, hms, hns⟩ := exists_of_bound? h hx
    obtain _ | ⟨hc, hrest⟩ := hns
    cases hc
    split at hf
    case h_1 hy =>
      cases hf
      obtain ⟨ms', ns', rfl, hms', hns'⟩ := exists_of_bound? hrest hy
      obtain ⟨v, rfl⟩ := eq_of_spells_closeBracket hns'
      rw [ofBounds_some]
      exact .pair hms hms'
    case h_2 => cases hf
  case h_3 => cases hf

theorem facesOf_of_faces? (h : List.Forall₂ Spells ls symbols) (hf : faces? symbols = some f) :
    FacesOf ls f := by
  unfold faces? at hf
  split at hf
  case h_1 =>
    cases hf
    obtain _ | ⟨hp, _ | _⟩ := h
    cases hp
    exact .percent
  case h_2 =>
    cases hf
    obtain _ | ⟨hp, _ | _⟩ := h
    cases hp
    exact .fudge
  case h_3 =>
    obtain _ | ⟨ho, h⟩ := h
    cases ho
    exact facesOf_of_bracketed? h hf _
  case h_4 =>
    split at hf
    case h_1 hx =>
      cases hf
      obtain ⟨ms, ns, rfl, hms, hns⟩ := exists_of_bound? h hx
      cases hns
      rw [ofBounds_none, List.append_nil]
      exact .lone hms
    case h_2 => cases hf

theorem faces?_of_facesOf (hf : FacesOf ls f) (h : List.Forall₂ Spells ls symbols) :
    faces? symbols = some f := by
  cases hf with
  | percent =>
      obtain _ | ⟨hp, _ | _⟩ := h
      cases hp
      rfl
  | fudge =>
      obtain _ | ⟨hp, _ | _⟩ := h
      cases hp
      rfl
  | lone hx =>
      rw [← List.append_nil ls] at h
      obtain ⟨rest, hb, hrest⟩ := exists_bound?_of_bound hx h
      cases hrest
      rw [faces?_of_bound? hb, ofBounds_none]
  | bracketed hx =>
      obtain _ | ⟨ho, h⟩ := h
      cases ho
      obtain ⟨rest, hb, hrest⟩ := exists_bound?_of_bound hx h
      obtain _ | ⟨hc, _ | _⟩ := hrest
      cases hc
      rw [← ofBounds_none]
      simp only [faces?, bracketed?, hb]
  | pair hx hy =>
      obtain _ | ⟨ho, h⟩ := h
      cases ho
      obtain ⟨rest, hb, hrest⟩ := exists_bound?_of_bound hx h
      obtain _ | ⟨hc, hrest⟩ := hrest
      cases hc
      obtain ⟨rest, hb', hrest⟩ := exists_bound?_of_bound hy hrest
      obtain _ | ⟨hc, _ | _⟩ := hrest
      cases hc
      rw [← ofBounds_some]
      simp only [faces?, bracketed?, hb, hb']

theorem dice?_eq_some_iff {k : Int64} :
    dice? k symbols = some n ↔
      0 < k ∧ ∃ f, faces? symbols = some f ∧ n = .dice k.toInt.toNat f := by
  unfold dice?
  split
  case isTrue hk =>
    rw [Option.map_eq_some_iff]
    exact ⟨fun ⟨f, hf, hn⟩ => ⟨hk, f, hf, hn.symm⟩, fun ⟨_, f, hf, hn⟩ => ⟨f, hf, hn.symm⟩⟩
  case isFalse hk => simp [hk]

theorem denotes_of_ofSymbols? (h : List.Forall₂ Spells ls symbols)
    (hn : ofSymbols? symbols = some n) : Denotes ls n := by
  unfold ofSymbols? at hn
  split at hn
  case h_1 =>
    obtain ⟨-, f, hf, rfl⟩ := dice?_eq_some_iff.mp hn
    obtain _ | ⟨hd, h⟩ := h
    cases hd
    exact .die (facesOf_of_faces? h hf)
  case h_2 =>
    obtain ⟨k, hk, hd⟩ := Option.bind_eq_some_iff.mp hn
    obtain ⟨hpos, f, hf, rfl⟩ := dice?_eq_some_iff.mp hd
    obtain ⟨hfits, rfl⟩ := word?_eq_some_iff.mp hk
    obtain _ | ⟨hi, _ | ⟨hd, h⟩⟩ := h
    cases hd
    cases hi with
    | integer hds =>
        rw [toInt_ofInt hfits, Int.toNat_natCast]
        rw [Int64.lt_iff_toInt_lt, toInt_ofInt hfits] at hpos
        exact .dice (readNat?_map_char hds) hfits (by simpa using hpos) (facesOf_of_faces? h hf)
  case h_3 =>
    obtain ⟨k, hk, rfl⟩ := Option.map_eq_some_iff.mp hn
    obtain ⟨hfits, rfl⟩ := word?_eq_some_iff.mp hk
    obtain _ | ⟨hi, _ | _⟩ := h
    cases hi with
    | integer hds => exact .integer (.plain (readNat?_map_char hds) hfits)
  case h_4 =>
    obtain ⟨k, hk, rfl⟩ := Option.map_eq_some_iff.mp hn
    obtain ⟨hfits, rfl⟩ := word?_eq_some_iff.mp hk
    obtain _ | ⟨hm, _ | ⟨hi, _ | _⟩⟩ := h
    cases hm
    cases hi with
    | integer hds =>
        change Denotes _ (.fixed (.int (-_)))
        rw [← Int64.ofInt_neg]
        exact .integer (.negated (readNat?_map_char hds) hfits)
  case h_5 =>
    cases hn
    obtain _ | ⟨hd, _ | _⟩ := h
    cases hd with
    | decimal hds => exact .decimal (readDouble?_decimal hds)
  case h_6 =>
    cases hn
    obtain _ | ⟨hm, _ | ⟨hd, _ | _⟩⟩ := h
    cases hm
    cases hd with
    | decimal hds => exact .negatedDecimal (readDouble?_decimal hds)
  case h_7 => cases hn

theorem ofSymbols?_of_bound? (h : bound? symbols = some (x, [])) :
    ofSymbols? symbols = some (.fixed (.int x)) := by
  unfold bound? at h
  split at h
  case h_1 =>
    obtain ⟨k, hk, he⟩ := Option.map_eq_some_iff.mp h
    cases he
    rw [ofSymbols?, hk]
    rfl
  case h_2 =>
    obtain ⟨k, hk, he⟩ := Option.map_eq_some_iff.mp h
    cases he
    rw [ofSymbols?, hk]
    rfl
  case h_3 => cases h

theorem ofSymbols?_of_denotes (hn : Denotes ls n) (h : List.Forall₂ Spells ls symbols) :
    ofSymbols? symbols = some n := by
  cases hn with
  | integer hx =>
      rw [← List.append_nil ls] at h
      obtain ⟨rest, hb, hrest⟩ := exists_bound?_of_bound hx h
      cases hrest
      exact ofSymbols?_of_bound? hb
  | decimal hx =>
      obtain _ | ⟨hd, _ | _⟩ := h
      cases hd with
      | decimal hds =>
          cases (readDouble?_decimal hds).symm.trans hx
          rfl
  | negatedDecimal hx =>
      obtain _ | ⟨hm, _ | ⟨hd, _ | _⟩⟩ := h
      cases hm
      cases hd with
      | decimal hds =>
          cases (readDouble?_decimal hds).symm.trans hx
          rfl
  | die hf =>
      obtain _ | ⟨hd, h⟩ := h
      cases hd
      exact dice?_eq_some_iff.mpr ⟨by decide, _, faces?_of_facesOf hf h, rfl⟩
  | dice hu hfits hpos hf =>
      obtain _ | ⟨hi, _ | ⟨hd, h⟩⟩ := h
      obtain ⟨ds, rfl, rfl⟩ := exists_word_of_integer hi hu
      cases hd
      rw [ofSymbols?, word?_eq_some_iff.mpr ⟨hfits, rfl⟩]
      refine dice?_eq_some_iff.mpr ⟨?_, _, faces?_of_facesOf hf h, ?_⟩
      · rw [Int64.lt_iff_toInt_lt, toInt_ofInt hfits]
        exact Int.natCast_pos.mpr hpos
      · rw [toInt_ofInt hfits, Int.toNat_natCast]

theorem unknown_not_mem_of_bound (h : Bound ls x) (c : Char) : .unknown c ∉ ls := by
  cases h <;> simp

theorem unknown_not_mem_of_facesOf (h : FacesOf ls f) (c : Char) : .unknown c ∉ ls := by
  cases h with
  | percent => simp
  | fudge => simp
  | lone hx => exact unknown_not_mem_of_bound hx c
  | bracketed hx => simpa using unknown_not_mem_of_bound hx c
  | pair hx hy =>
      simpa using And.intro (unknown_not_mem_of_bound hx c) (unknown_not_mem_of_bound hy c)

theorem unknown_not_mem_of_denotes (hn : Denotes ls n) (c : Char) : .unknown c ∉ ls := by
  cases hn with
  | integer hx => exact unknown_not_mem_of_bound hx c
  | decimal => simp
  | negatedDecimal => simp
  | die hf => simpa using unknown_not_mem_of_facesOf hf c
  | dice _ _ _ hf => simpa using unknown_not_mem_of_facesOf hf c

end

theorem ofText?_eq_some_iff {s : String} {ls : List Lexeme} (h : Lexes s.toList ls)
    {n : Notation} : ofText? s = some n ↔ Denotes ls n := by
  unfold ofText?
  rcases scan_of_lexes h with ⟨symbols, hspells, hscan⟩ | ⟨c, hc, hscan⟩
  · rw [hscan]
    exact ⟨denotes_of_ofSymbols? hspells, fun hn => ofSymbols?_of_denotes hn hspells⟩
  · rw [hscan]
    exact ⟨nofun, fun hn => absurd hc (unknown_not_mem_of_denotes hn c)⟩

theorem read_of_lexes (s : String) :
    (∃ ls, Lexes s.toList ls) ∧
      ∀ ls, Lexes s.toList ls →
        (∀ n, read s = .ok n ↔ Denotes ls n) ∧
        (read s = .error (.invalidNotation s) ↔ ∀ n, ¬ Denotes ls n) := by
  refine ⟨exists_lexes s.toList, fun ls hls => ?_⟩
  have hiff {n : Notation} := ofText?_eq_some_iff hls (n := n)
  unfold read
  cases hs : ofText? s with
  | none =>
      have hnone : ∀ n, ¬ Denotes ls n := fun n hn => by cases hs.symm.trans (hiff.mpr hn)
      exact ⟨fun n => ⟨nofun, fun hn => absurd hn (hnone n)⟩, fun _ => hnone, fun _ => rfl⟩
  | some m =>
      have hm := hiff.mp hs
      refine ⟨fun n => ⟨fun hn => ?_, fun hn => ?_⟩, nofun, fun hno => absurd hm (hno m)⟩
      · cases hn
        exact hm
      · cases hs.symm.trans (hiff.mpr hn)
        rfl

theorem read_of_lexes_pair :
    ∃ ls, Lexes "2D [5,\t-3]".toList ls ∧ Denotes ls (.dice 2 ⟨-3, 5⟩) := by
  obtain ⟨⟨ls, hls⟩, hread⟩ := read_of_lexes "2D [5,\t-3]"
  exact ⟨ls, hls, ((hread ls hls).1 _).mp rfl⟩

end Notation

end DiceTray
