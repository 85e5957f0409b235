import DiceTray.Notation.Symbol
import DiceTray.Proofs.Decimal.Reading
import Mathlib.Data.List.Forall2
import Mathlib.Data.Nat.Find

namespace DiceTray

open Decimal

namespace Symbol

inductive Rule where
  | integer
  | decimal
  | die
  | percent
  | fudge
  | minus
  | openBracket
  | closeBracket
  | comma
  | gap
  deriving DecidableEq, Repr

def Rule.Takes : Rule → List Char → Prop
  | .integer, w => ∃ ds : List Digit, ds ≠ [] ∧ w = ds.map Digit.char
  | .decimal, w => ∃ whole fraction : List Digit, whole ++ fraction ≠ [] ∧
      w = whole.map Digit.char ++ '.' :: fraction.map Digit.char
  | .die, w => w = ['d'] ∨ w = ['D']
  | .percent, w => w = ['%']
  | .fudge, w => w = ['F']
  | .minus, w => w = ['-']
  | .openBracket, w => w = ['[']
  | .closeBracket, w => w = [']']
  | .comma, w => w = [',']
  | .gap, w => w ≠ [] ∧ ∀ c ∈ w, c = ' ' ∨ c = '\t' ∨ c = '\r' ∨ c = '\n'

def Longest (w rest : List Char) : Prop :=
  ∀ (k : Rule) (u v : List Char), k.Takes u → u ++ v = w ++ rest → u.length ≤ w.length

inductive Lexeme where
  | word (rule : Rule) (text : List Char)
  | unknown (c : Char)

/-- The longest words of a text one after another, the gaps left out. -/
inductive Lexes : List Char → List Lexeme → Prop where
  | done : Lexes [] []
  | gap {w rest : List Char} {ls : List Lexeme} (h : Rule.gap.Takes w) (hw : Longest w rest)
      (hrest : Lexes rest ls) : Lexes (w ++ rest) ls
  | word {k : Rule} {w rest : List Char} {ls : List Lexeme} (hk : k ≠ .gap) (h : k.Takes w)
      (hw : Longest w rest) (hrest : Lexes rest ls) : Lexes (w ++ rest) (.word k w :: ls)
  | unknown {c : Char} {rest : List Char} {ls : List Lexeme}
      (hnone : ∀ (k : Rule) (u v : List Char), k.Takes u → u ++ v ≠ c :: rest)
      (hrest : Lexes rest ls) : Lexes (c :: rest) (.unknown c :: ls)

theorem Rule.Takes.ne_nil {k : Rule} {w : List Char} (h : k.Takes w) : w ≠ [] := by
  cases k with
  | integer =>
      obtain ⟨ds, hds, rfl⟩ := h
      simpa using hds
  | decimal =>
      obtain ⟨whole, fraction, -, rfl⟩ := h
      simp
  | die => rcases h with rfl | rfl <;> simp
  | gap => exact h.1
  | _ =>
      cases h
      simp

theorem exists_longest {cs u v : List Char} {k : Rule} (hk : k.Takes u) (h : u ++ v = cs) :
    ∃ (j : Rule) (w rest : List Char), j.Takes w ∧ w ++ rest = cs ∧ Longest w rest := by
  classical
  let Size (m : Nat) : Prop :=
    ∃ (j : Rule) (w rest : List Char), j.Takes w ∧ w ++ rest = cs ∧ w.length = m
  have hbound {w rest : List Char} (hw : w ++ rest = cs) : w.length ≤ cs.length := by
    rw [← hw, List.length_append]
    exact Nat.le_add_right ..
  obtain ⟨j, w, rest, hj, hw, hm⟩ : Size (Nat.findGreatest Size cs.length) :=
    Nat.findGreatest_spec (hbound h) ⟨k, u, v, hk, h, rfl⟩
  refine ⟨j, w, rest, hj, hw, fun i u v hi huv => ?_⟩
  rw [hm]
  rw [hw] at huv
  exact Nat.le_findGreatest (hbound huv) ⟨i, u, v, hi, huv, rfl⟩

theorem exists_lexes (cs : List Char) : ∃ ls, Lexes cs ls := by
  induction h : cs.length using Nat.strong_induction_on generalizing cs with
  | _ n ih =>
    cases cs with
    | nil => exact ⟨[], .done⟩
    | cons c rest =>
        by_cases hnone : ∀ (k : Rule) (u v : List Char), k.Takes u → u ++ v ≠ c :: rest
        · obtain ⟨ls, hls⟩ := ih rest.length (by simp [← h]) rest rfl
          exact ⟨_, .unknown hnone hls⟩
        · push Not at hnone
          obtain ⟨k, u, v, hk, huv⟩ := hnone
          obtain ⟨j, w, tail, hj, hw, hlong⟩ := exists_longest hk huv
          have hpos := List.length_pos_iff.mpr hj.ne_nil
          have hlt : tail.length < n := by
            rw [← h, ← hw, List.length_append]
            omega
          obtain ⟨ls, hls⟩ := ih tail.length hlt tail rfl
          rw [← hw]
          by_cases hgap : j = .gap
          · exact ⟨ls, .gap (hgap ▸ hj) hlong hls⟩
          · exact ⟨_, .word hgap hj hlong hls⟩

inductive Spells : Lexeme → Symbol → Prop where
  | integer {ds : List Digit} (h : ds ≠ []) :
      Spells (.word .integer (ds.map Digit.char)) (.integer ds)
  | decimal {whole fraction : List Digit} (h : whole ++ fraction ≠ []) :
      Spells (.word .decimal (whole.map Digit.char ++ '.' :: fraction.map Digit.char))
        (.decimal whole fraction)
  | die {w : List Char} : Spells (.word .die w) .die
  | percent {w : List Char} : Spells (.word .percent w) .percent
  | fudge {w : List Char} : Spells (.word .fudge w) .fudge
  | minus {w : List Char} : Spells (.word .minus w) .minus
  | openBracket {w : List Char} : Spells (.word .openBracket w) .openBracket
  | closeBracket {w : List Char} : Spells (.word .closeBracket w) .closeBracket
  | comma {w : List Char} : Spells (.word .comma w) .comma

section

variable {w rest : List Char} {p : Pending} {s : Symbol} {c : Char}

theorem Longest.halts_integer {ds : List Digit} (hne : ds ≠ [])
    (h : Longest (ds.map Digit.char) rest) : Halts rest ∧ rest.head? ≠ some '.' := by
  cases rest with
  | nil => exact ⟨halts_nil, nofun⟩
  | cons c rest =>
      have hone : ¬ (ds.map Digit.char ++ [c]).length ≤ (ds.map Digit.char).length := by simp
      refine ⟨halts_cons ?_ rest, fun hdot => ?_⟩
      · by_contra hc
        obtain ⟨d, hd⟩ := Option.ne_none_iff_exists'.mp hc
        refine hone (h .integer _ rest ⟨ds ++ [d], by simp, ?_⟩ (by simp))
        simp [Digit.char_of_ofChar? hd]
      · cases hdot
        exact hone (h .decimal _ rest ⟨ds, [], by simpa using hne, rfl⟩ (by simp))

theorem Longest.halts_decimal {whole fraction : List Digit}
    (h : Longest (whole.map Digit.char ++ '.' :: fraction.map Digit.char) rest) : Halts rest := by
  cases rest with
  | nil => exact halts_nil
  | cons c rest =>
      refine halts_cons ?_ rest
      by_contra hc
      obtain ⟨d, hd⟩ := Option.ne_none_iff_exists'.mp hc
      have hlong := h .decimal
        (whole.map Digit.char ++ '.' :: (fraction ++ [d]).map Digit.char) rest
        ⟨whole, fraction ++ [d], by simp, rfl⟩ (by simp [Digit.char_of_ofChar? hd])
      simp only [List.length_append, List.length_cons, List.length_map, List.length_nil] at hlong
      omega

def Pending.addAll (p : Pending) (ds : List Digit) : Pending :=
  ds.foldl (fun q d => Pending.add d q) p

theorem scan_digits (p : Pending) (ds : List Digit) (rest : List Char) :
    scan p (ds.map Digit.char ++ rest) = scan (p.addAll ds) rest := by
  induction ds generalizing p with
  | nil => rfl
  | cons d ds ih =>
      simp only [List.map_cons, List.cons_append, scan, Digit.ofChar?_char]
      exact ih (p.add d)

theorem addAll_digits (rev ds : List Digit) :
    (Pending.digits rev).addAll ds = .digits (ds.reverse ++ rev) := by
  induction ds generalizing rev with
  | nil => rfl
  | cons d ds ih =>
      rw [List.reverse_cons, List.append_assoc]
      exact ih (d :: rev)

theorem addAll_point (whole rev ds : List Digit) :
    (Pending.point whole rev).addAll ds = .point whole (ds.reverse ++ rev) := by
  induction ds generalizing rev with
  | nil => rfl
  | cons d ds ih =>
      rw [List.reverse_cons, List.append_assoc]
      exact ih (d :: rev)

theorem addAll_none {ds : List Digit} (h : ds ≠ []) :
    Pending.none.addAll ds = .digits ds.reverse := by
  cases ds with
  | nil => exact absurd rfl h
  | cons d ds =>
      rw [List.reverse_cons]
      exact addAll_digits [d] ds

theorem scan_close (hrest : Halts rest)
    (hdot : rest.head? = some '.' → p.dot? = p.close?.map fun symbols => (symbols, .point [] [])) :
    scan p rest = p.close?.bind fun symbols => (scan .none rest).map (symbols ++ ·) := by
  have hnone : Pending.none.close? = some [] := rfl
  have hstart : Pending.none.dot? = some ([], .point [] []) := rfl
  cases rest with
  | nil => cases hp : p.close? <;> simp [scan, hp, hnone]
  | cons c cs =>
      simp only [scan, hrest.ofChar?_eq_none]
      split
      case isTrue hc =>
        rw [hdot (by simp [hc]), hstart]
        cases p.close? <;> simp
      case isFalse =>
        split
        case isTrue => cases p.close? <;> simp [hnone]
        case isFalse =>
          cases p.close? with
          | none => rfl
          | some symbols => cases mark? c <;> simp [hnone, Function.comp_def]

theorem scan_of_halts {ds : List Digit} (hne : ds ≠ []) (hrest : Halts rest)
    (hdot : rest.head? ≠ some '.') :
    scan .none (ds.map Digit.char ++ rest) = (scan .none rest).map (.integer ds :: ·) := by
  rw [scan_digits, addAll_none hne, scan_close hrest fun he => absurd he hdot]
  simp [Pending.close?]

theorem scan_integer {ds : List Digit} (hne : ds ≠ []) (h : Longest (ds.map Digit.char) rest) :
    scan .none (ds.map Digit.char ++ rest) = (scan .none rest).map (.integer ds :: ·) := by
  obtain ⟨hrest, hdot⟩ := h.halts_integer hne
  exact scan_of_halts hne hrest hdot

theorem scan_point (ds : List Digit) (rest : List Char) :
    scan .none (ds.map Digit.char ++ '.' :: rest) = scan (.point ds []) rest := by
  have hdot : Digit.ofChar? '.' = none := rfl
  by_cases hne : ds = []
  · subst hne
    simp [scan, hdot, Pending.dot?, Pending.close?]
  · rw [scan_digits, addAll_none hne]
    simp [scan, hdot, Pending.dot?]

theorem scan_decimal {whole fraction : List Digit} (hne : whole ++ fraction ≠ [])
    (h : Longest (whole.map Digit.char ++ '.' :: fraction.map Digit.char) rest) :
    scan .none (whole.map Digit.char ++ '.' :: fraction.map Digit.char ++ rest) =
      (scan .none rest).map (.decimal whole fraction :: ·) := by
  rw [List.append_assoc, List.cons_append, scan_point, scan_digits, addAll_point,
    scan_close h.halts_decimal fun _ => rfl]
  have hclose : (Pending.point whole fraction.reverse).close? = some [.decimal whole fraction] := by
    cases whole <;> cases hf : fraction.reverse <;> simp_all [Pending.close?]
  simp [hclose]

theorem scan_mark (h : mark? c = some s) (rest : List Char) :
    scan .none (c :: rest) = (scan .none rest).map (s :: ·) := by
  unfold mark? at h
  split at h
  case h_9 => cases h
  all_goals
    cases h
    rfl

theorem isGap_iff : isGap c = true ↔ c = ' ' ∨ c = '\t' ∨ c = '\r' ∨ c = '\n' := by
  simp [isGap, or_assoc]

theorem scan_gap (h : ∀ c ∈ w, isGap c = true) (rest : List Char) :
    scan .none (w ++ rest) = scan .none rest := by
  induction w with
  | nil => rfl
  | cons c w ih =>
      have hone : scan .none (c :: (w ++ rest)) = scan .none (w ++ rest) := by
        rcases isGap_iff.mp (h c (by simp)) with rfl | rfl | rfl | rfl <;>
          exact Option.map_id' ..
      exact hone.trans (ih fun c hc => h c (by simp [hc]))

theorem scan_unknown (h : ∀ (k : Rule) (u v : List Char), k.Takes u → u ++ v ≠ c :: rest) :
    scan .none (c :: rest) = none := by
  have hdigit : Digit.ofChar? c = none := by
    by_contra hc
    obtain ⟨d, hd⟩ := Option.ne_none_iff_exists'.mp hc
    exact h .integer [c] rest ⟨[d], by simp, by simp [Digit.char_of_ofChar? hd]⟩ rfl
  have hgap : isGap c = false := by
    rw [Bool.eq_false_iff]
    intro hc
    exact h .gap [c] rest ⟨by simp, by simpa [isGap_iff] using hc⟩ rfl
  have hmark : mark? c = none := by
    unfold mark?
    split
    case h_1 => exact absurd rfl (h .die ['d'] rest (.inl rfl))
    case h_2 => exact absurd rfl (h .die ['D'] rest (.inr rfl))
    case h_3 => exact absurd rfl (h .percent ['%'] rest rfl)
    case h_4 => exact absurd rfl (h .fudge ['F'] rest rfl)
    case h_5 => exact absurd rfl (h .minus ['-'] rest rfl)
    case h_6 => exact absurd rfl (h .openBracket ['['] rest rfl)
    case h_7 => exact absurd rfl (h .closeBracket [']'] rest rfl)
    case h_8 => exact absurd rfl (h .comma [','] rest rfl)
    case h_9 => rfl
  by_cases hdot : c = '.'
  · subst hdot
    have hrest : Halts rest := by
      intro x hx
      obtain ⟨tail, rfl⟩ := List.head?_eq_some_iff.mp hx
      by_contra hc
      obtain ⟨d, hd⟩ := Option.ne_none_iff_exists'.mp hc
      refine h .decimal ['.', x] tail ⟨[], [d], by simp, ?_⟩ rfl
      simp [Digit.char_of_ofChar? hd]
    exact (scan_point [] rest).trans (scan_close hrest fun _ => rfl)
  · simp only [scan, hdigit, if_neg hdot, hgap, hmark]
    rfl

theorem scan_word {k : Rule} (hk : k ≠ .gap) (h : k.Takes w) (hw : Longest w rest) :
    ∃ s, Spells (.word k w) s ∧ scan .none (w ++ rest) = (scan .none rest).map (s :: ·) := by
  cases k with
  | gap => exact absurd rfl hk
  | integer =>
      obtain ⟨ds, hne, rfl⟩ := h
      exact ⟨_, .integer hne, scan_integer hne hw⟩
  | decimal =>
      obtain ⟨whole, fraction, hne, rfl⟩ := h
      exact ⟨_, .decimal hne, scan_decimal hne hw⟩
  | die =>
      rcases h with rfl | rfl
      · exact ⟨_, .die, scan_mark rfl rest⟩
      · exact ⟨_, .die, scan_mark rfl rest⟩
  | percent => exact ⟨_, .percent, h ▸ scan_mark rfl rest⟩
  | fudge => exact ⟨_, .fudge, h ▸ scan_mark rfl rest⟩
  | minus => exact ⟨_, .minus, h ▸ scan_mark rfl rest⟩
  | openBracket => exact ⟨_, .openBracket, h ▸ scan_mark rfl rest⟩
  | closeBracket => exact ⟨_, .closeBracket, h ▸ scan_mark rfl rest⟩
  | comma => exact ⟨_, .comma, h ▸ scan_mark rfl rest⟩

theorem scan_of_lexes {cs : List Char} {ls : List Lexeme} (h : Lexes cs ls) :
    (∃ symbols, List.Forall₂ Spells ls symbols ∧ ofChars? cs = some symbols) ∨
      ∃ c, .unknown c ∈ ls ∧ ofChars? cs = none := by
  unfold ofChars?
  induction h with
  | done => exact .inl ⟨[], .nil, rfl⟩
  | gap h hw hrest ih =>
      rw [scan_gap fun c hc => isGap_iff.mpr (h.2 c hc)]
      exact ih
  | unknown hnone hrest ih => exact .inr ⟨_, List.mem_cons_self, scan_unknown hnone⟩
  | word hk h hw hrest ih =>
      obtain ⟨s, hs, hscan⟩ := scan_word hk h hw
      rw [hscan]
      rcases ih with ⟨symbols, hspells, hsymbols⟩ | ⟨c, hc, hnone⟩
      · exact .inl ⟨s :: symbols, .cons hs hspells, by rw [hsymbols]; rfl⟩
      · exact .inr ⟨c, List.mem_cons_of_mem _ hc, by rw [hnone]; rfl⟩

end

end Symbol

end DiceTray
