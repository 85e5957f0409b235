import DiceTray.Tray.Pass

namespace DiceTray

def Roller.replay (vs : List Int64) : Roller Nat where
  draw _ n := (vs.getD (n % vs.length) 0, n + 1)

theorem Token.exists_word_of_isModifier {t : Token} (h : t.kind.isModifier = true) :
    ∃ word, t.kind = .modifier word := by
  rcases t with ⟨kind, text, data, conditions⟩
  cases kind with
  | modifier word => exact ⟨word, rfl⟩
  | _ => cases h

theorem getLast?_filterMap_cons {α β : Type _} (f : α → Option β) (a : α) (l : List α) :
    ((a :: l).filterMap f).getLast? = (l.filterMap f).getLast?.or (f a) := by
  cases ha : f a with
  | none => simp [ha]
  | some b =>
      rw [List.filterMap_cons_some ha, List.getLast?_cons]
      cases (l.filterMap f).getLast? <;> rfl

namespace Pool

variable {σ : Type}

def modifiers (p : Pool) : Modifiers :=
  match p.dice? with
  | none => {}
  | some d => d.modifiers

def conditions (p : Pool) : List Condition :=
  match p.dice? with
  | none => []
  | some d => d.conditions

def plain (p : Pool) : Pool :=
  match p.dice? with
  | none => p
  | some d => p.withDice { d with modifiers := {}, conditions := [] }

def withHand (hand : Hand) (p : Pool) : Pool :=
  match p.dice? with
  | none => p
  | some d => p.withDice { d with hand }

def cleared (p : Pool) : Pool := p.withHand []

def judged (t : Token) (p : Pool) : Pool :=
  if t.conditions.isEmpty then p else (p.setConditions t.conditions).toOption.getD p

def modified (word : ModifierWord) (t : Token) (p : Pool) : Pool :=
  let (phase, m) := word.modifier t (Pass.size p)
  (p.setModifier phase m).toOption.getD p

def rolled (r : Roller σ) (p : Pool) (s : σ) : Pool := (p.roll r s).2.1

theorem dice?_withDice {p : Pool} {d : Dice} (h : p.dice? = some d) (d' : Dice) :
    (p.withDice d').dice? = some d' := by
  rcases p with ⟨source, value | e | e⟩ <;> first | rfl | cases h

theorem withDice_withDice (d d' : Dice) (p : Pool) :
    (p.withDice d).withDice d' = p.withDice d' := by
  rcases p with ⟨source, value | e | e⟩ <;> rfl

theorem withDice_self {p : Pool} {d : Dice} (h : p.dice? = some d) : p.withDice d = p := by
  rcases p with ⟨source, value | e | e⟩ <;> cases h <;> rfl

theorem exists_dice_of_denotation {p : Pool} {count : Nat} {faces : Faces}
    (h : denotation p = .dice count faces) :
    ∃ d, p.dice? = some d ∧ d.count = count ∧ d.faces = faces := by
  rcases p with ⟨source, value | d | d⟩ <;> cases h <;> exact ⟨d, rfl, rfl, rfl⟩

theorem change_of_dice {p : Pool} {d : Dice} (h : p.dice? = some d) (f : Dice → Dice) :
    p.change f = .ok (p.withDice (f d)) := by
  simp only [change, h]

theorem changeFrom_of_dice {p : Pool} {d : Dice} (h : p.dice? = some d)
    (f : Dice → σ → Dice × σ) (s : σ) :
    p.changeFrom f s = .ok (p.withDice (f d s).1, (f d s).2) := by
  simp only [changeFrom, h]

theorem roll_of_dice {p : Pool} {d : Dice} (h : p.dice? = some d) (r : Roller σ) (s : σ) :
    p.roll r s =
      ((d.roll r s).1.map .int, p.withDice (d.roll r s).2.1, (d.roll r s).2.2) := by
  rcases p with ⟨source, value | e | e⟩ <;> cases h <;> rfl

theorem hand_of_dice {p : Pool} {d : Dice} (h : p.dice? = some d) : p.hand = d.hand := by
  simp only [hand, h]

theorem result_of_dice {p : Pool} {d : Dice} (h : p.dice? = some d) :
    p.result = d.hand.result := by
  rcases p with ⟨source, value | e | e⟩ <;> cases h <;> rfl

theorem hand_plain (p : Pool) : p.plain.hand = p.hand := by
  rcases p with ⟨source, value | d | d⟩ <;> rfl

theorem result_plain (p : Pool) : p.plain.result = p.result := by
  rcases p with ⟨source, value | d | d⟩ <;> rfl

theorem plain_judged (t : Token) (p : Pool) : (p.judged t).plain = p.plain := by
  unfold judged
  split
  · rfl
  · rcases p with ⟨source, value | d | d⟩ <;> rfl

theorem plain_modified (word : ModifierWord) (t : Token) (p : Pool) :
    (p.modified word t).plain = p.plain := by
  rcases p with ⟨source, value | d | d⟩ <;> rfl

theorem hand_judged (t : Token) (p : Pool) : (p.judged t).hand = p.hand := by
  rw [← hand_plain, plain_judged, hand_plain]

theorem hand_modified (word : ModifierWord) (t : Token) (p : Pool) :
    (p.modified word t).hand = p.hand := by
  rw [← hand_plain, plain_modified, hand_plain]

theorem modifiers_judged (t : Token) (p : Pool) : (p.judged t).modifiers = p.modifiers := by
  unfold judged
  split
  · rfl
  · rcases p with ⟨source, value | d | d⟩ <;> rfl

theorem conditions_modified (word : ModifierWord) (t : Token) (p : Pool) :
    (p.modified word t).conditions = p.conditions := by
  rcases p with ⟨source, value | d | d⟩ <;> rfl

theorem modifiers_of_fixed {p : Pool} {value : Number} (h : denotation p = .fixed value) :
    p.modifiers = {} ∧ p.conditions = [] := by
  rcases p with ⟨source, value' | d | d⟩
  · exact ⟨rfl, rfl⟩
  · cases h
  · cases h

theorem modifiers_modified {word : ModifierWord} {t : Token} {p : Pool} {count : Nat}
    {faces : Faces} (h : denotation p = .dice count faces) :
    (p.modified word t).modifiers =
      p.modifiers.set (word.modifier t count).2 (word.modifier t count).1 := by
  rcases p with ⟨source, value | d | d⟩ <;> cases h <;> rfl

theorem conditions_judged {t : Token} {p : Pool} {count : Nat} {faces : Faces}
    (h : denotation p = .dice count faces) :
    (p.judged t).conditions = if t.conditions.isEmpty then p.conditions else t.conditions := by
  unfold judged
  split
  · rfl
  · rcases p with ⟨source, value | d | d⟩ <;> cases h <;> rfl

theorem modifiers_cleared (p : Pool) : p.cleared.modifiers = p.modifiers := by
  rcases p with ⟨source, value | d | d⟩ <;> rfl

theorem conditions_cleared (p : Pool) : p.cleared.conditions = p.conditions := by
  rcases p with ⟨source, value | d | d⟩ <;> rfl

theorem denotation_cleared (p : Pool) : denotation p.cleared = denotation p := by
  rcases p with ⟨source, value | d | d⟩ <;> rfl

theorem cleared_rolled (r : Roller σ) (p : Pool) (s : σ) :
    (p.rolled r s).cleared = p.cleared := by
  rcases p with ⟨source, value | d | d⟩ <;> rfl

theorem cleared_modified (word : ModifierWord) (t : Token) (p : Pool) :
    (p.modified word t).cleared = p.cleared.modified word t := by
  rcases p with ⟨source, value | d | d⟩ <;> rfl

theorem denotation_judged (t : Token) (p : Pool) : denotation (p.judged t) = denotation p := by
  unfold judged
  split
  · rfl
  · rcases p with ⟨source, value | d | d⟩ <;> rfl

theorem denotation_modified (word : ModifierWord) (t : Token) (p : Pool) :
    denotation (p.modified word t) = denotation p := by
  rcases p with ⟨source, value | d | d⟩ <;> rfl

end Pool

end DiceTray
