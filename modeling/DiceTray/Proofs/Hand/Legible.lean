import DiceTray.Pool
import DiceTray.Proofs.Decimal.Reading
import Mathlib.Data.List.Forall2

namespace DiceTray

open Decimal

namespace Decimal.Numeral

theorem text_ofInt (n : Int) :
    (ofInt n).text = signed (n < 0) ((digits n.natAbs).map Digit.char) := by
  simp [text, ofInt]

theorem digits_append_ne {c : Char} (hc : Digit.ofChar? c = none) (n : Nat) (cs tail : List Char) :
    (digits n).map Digit.char ++ cs ≠ c :: tail := by
  obtain ⟨d, ds, hds⟩ := List.exists_cons_of_ne_nil (digits_ne_nil n)
  rw [hds]
  exact fun h => Digit.char_ne hc d (List.cons.inj h).1

theorem digits_append_inj {m n : Nat} {cs ds : List Char} (hcs : Halts cs) (hds : Halts ds)
    (h : (digits m).map Digit.char ++ cs = (digits n).map Digit.char ++ ds) : m = n ∧ cs = ds := by
  have hspan := congrArg spanDigits h
  rw [spanDigits_of_halts hcs, spanDigits_of_halts hds] at hspan
  obtain ⟨hdigits, htail⟩ := Prod.mk.inj hspan
  have hvalue := congrArg value hdigits
  rw [value_digits, value_digits] at hvalue
  exact ⟨hvalue, htail⟩

theorem text_ofInt_append_inj {m n : Int} {cs ds : List Char} (hcs : Halts cs) (hds : Halts ds)
    (h : (ofInt m).text ++ cs = (ofInt n).text ++ ds) : m = n ∧ cs = ds := by
  rw [text_ofInt, text_ofInt] at h
  by_cases hm : m < 0 <;> by_cases hn : n < 0 <;>
    simp only [hm, hn, decide_true, decide_false, signed, if_true, if_false, Bool.false_eq_true,
      List.cons_append] at h
  · obtain ⟨habs, htail⟩ := digits_append_inj hcs hds (List.cons.inj h).2
    exact ⟨by omega, htail⟩
  · exact absurd h.symm (digits_append_ne rfl _ ds _)
  · exact absurd h (digits_append_ne rfl _ cs _)
  · obtain ⟨habs, htail⟩ := digits_append_inj hcs hds h
    exact ⟨by omega, htail⟩

end Decimal.Numeral

theorem Mark.eq_of_symbol_eq {m n : Mark} (h : m.symbol = n.symbol) : m = n := by
  cases m <;> cases n <;> first | rfl | cases h

theorem Die.chars_append_ne (d : Die) (cs tail : List Char) : d.chars ++ cs ≠ ']' :: tail := by
  have htext : d.valueChars = _ := Numeral.text_ofInt d.value.toInt
  rw [chars, htext, List.append_assoc]
  unfold Numeral.signed
  split
  · exact fun h => absurd (List.cons.inj h).1 (by decide)
  · exact Numeral.digits_append_ne rfl _ _ tail

namespace Hand

def following : Hand → List Char
  | [] => [']']
  | d :: h => ',' :: ' ' :: (d.chars ++ following h)

def Closed (cs : List Char) : Prop :=
  ∃ c tail, cs = c :: tail ∧ Digit.ofChar? c = none ∧ ∀ m : Mark, m.symbol ≠ c

theorem closed_following (h : Hand) : Closed h.following := by
  cases h with
  | nil => exact ⟨']', [], rfl, rfl, fun m => by cases m <;> decide⟩
  | cons d h => exact ⟨',', _, rfl, rfl, fun m => by cases m <;> decide⟩

theorem chars_nil : chars [] = '[' :: following [] := rfl

theorem chars_cons (d : Die) (h : Hand) : chars (d :: h) = '[' :: (d.chars ++ h.following) := by
  unfold chars listText
  induction h generalizing d with
  | nil => simp [following]
  | cons e h ih =>
      simp only [List.map_cons, List.intercalate_cons_cons, List.append_assoc, following] at ih ⊢
      rw [(List.cons.inj (ih e)).2]
      rfl

variable {cs ds : List Char}

theorem marks_append_inj {ms ns : List Mark} (hcs : Closed cs) (hds : Closed ds)
    (h : ms.map Mark.symbol ++ cs = ns.map Mark.symbol ++ ds) : ms = ns ∧ cs = ds := by
  induction ms generalizing ns with
  | nil =>
      cases ns with
      | nil => exact ⟨rfl, h⟩
      | cons n ns =>
          obtain ⟨c, tail, rfl, -, hc⟩ := hcs
          exact absurd (List.cons.inj h).1.symm (hc n)
  | cons m ms ih =>
      cases ns with
      | nil =>
          obtain ⟨c, tail, rfl, -, hc⟩ := hds
          exact absurd (List.cons.inj h).1 (hc m)
      | cons n ns =>
          obtain ⟨hhead, htail⟩ := List.cons.inj h
          obtain ⟨rfl, hrest⟩ := ih htail
          exact ⟨by rw [Mark.eq_of_symbol_eq hhead], hrest⟩

theorem Closed.halts_append (hcs : Closed cs) (ms : Marks) : Halts (ms.chars ++ cs) := by
  rcases ms with ⟨_ | ⟨m, ms⟩⟩
  · obtain ⟨c, tail, rfl, hdigit, -⟩ := hcs
    exact halts_cons hdigit tail
  · exact halts_cons (by cases m <;> rfl) _

theorem die_append_inj {d e : Die} (hcs : Closed cs) (hds : Closed ds)
    (h : d.chars ++ cs = e.chars ++ ds) : (d.value = e.value ∧ d.marks = e.marks) ∧ cs = ds := by
  unfold Die.chars at h
  rw [List.append_assoc, List.append_assoc] at h
  obtain ⟨hvalue, htail⟩ := Numeral.text_ofInt_append_inj (hcs.halts_append d.marks)
    (hds.halts_append e.marks) h
  obtain ⟨hmarks, hrest⟩ := marks_append_inj hcs hds htail
  exact ⟨⟨Int64.toInt_inj.mp hvalue, congrArg Marks.mk hmarks⟩, hrest⟩

def Shown (d e : Die) : Prop := d.value = e.value ∧ d.marks = e.marks

theorem forall₂_shown_of_following {g h : Hand} (heq : g.following = h.following) :
    List.Forall₂ Shown g h := by
  induction g generalizing h with
  | nil =>
      cases h with
      | nil => exact .nil
      | cons e h => cases heq
  | cons d g ih =>
      cases h with
      | nil => cases heq
      | cons e h =>
          have hdie := (List.cons.inj (List.cons.inj heq).2).2
          obtain ⟨hshown, hrest⟩ := die_append_inj (closed_following g) (closed_following h) hdie
          exact .cons hshown (ih hrest)

theorem following_eq_of_chars_eq {g h : Hand} (heq : g.chars = h.chars) :
    g.following = h.following := by
  cases g with
  | nil =>
      cases h with
      | nil => rfl
      | cons e h =>
          rw [chars_nil, chars_cons] at heq
          exact absurd (List.cons.inj heq).2.symm (e.chars_append_ne _ _)
  | cons d g =>
      cases h with
      | nil =>
          rw [chars_nil, chars_cons] at heq
          exact absurd (List.cons.inj heq).2 (d.chars_append_ne _ _)
      | cons e h =>
          rw [chars_cons, chars_cons] at heq
          simp only [following, (List.cons.inj heq).2]

theorem chars_of_forall₂_shown {g h : Hand} (heq : List.Forall₂ Shown g h) :
    g.chars = h.chars := by
  have hdice : g.map Die.chars = h.map Die.chars := by
    induction heq with
    | nil => rfl
    | cons hde _ ih => simp only [List.map_cons, Die.chars, Die.valueChars, hde.1, hde.2, ih]
  exact congrArg listText hdice

end Hand

namespace Pool

theorem text_dice_eq_iff (source source' : String) (d e : Dice) :
    (Pool.mk source (.dice d)).text = (Pool.mk source' (.dice e)).text ↔
      List.Forall₂ (fun a b => a.value = b.value ∧ a.marks = b.marks) d.hand e.hand := by
  constructor
  · intro h
    exact Hand.forall₂_shown_of_following (Hand.following_eq_of_chars_eq (String.ofList_inj.mp h))
  · intro h
    exact congrArg String.ofList (Hand.chars_of_forall₂_shown h)

end Pool

end DiceTray
