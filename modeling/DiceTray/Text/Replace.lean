namespace DiceTray.Text

def after? : List Char → List Char → Option (List Char)
  | [], text => some text
  | _ :: _, [] => none
  | p :: ps, c :: cs => if p = c then after? ps cs else none

theorem after?_eq_some_iff {pattern text rest : List Char} :
    after? pattern text = some rest ↔ text = pattern ++ rest := by
  induction pattern generalizing text with
  | nil => simp [after?]
  | cons p ps ih =>
      cases text with
      | nil => simp [after?]
      | cons c cs =>
          simp only [after?, List.cons_append, List.cons.injEq]
          split
          case isTrue h => simp [ih, h]
          case isFalse h => simp [Ne.symm h]

def replaceFirst (pattern replacement : List Char) : List Char → List Char
  | [] =>
      match after? pattern [] with
      | some rest => replacement ++ rest
      | none => []
  | c :: cs =>
      match after? pattern (c :: cs) with
      | some rest => replacement ++ rest
      | none => c :: replaceFirst pattern replacement cs

theorem replaceFirst_append (pattern replacement rest : List Char) :
    replaceFirst pattern replacement (pattern ++ rest) = replacement ++ rest := by
  have h : after? pattern (pattern ++ rest) = some rest := after?_eq_some_iff.mpr rfl
  cases ht : pattern ++ rest with
  | nil => rw [ht] at h; simp [replaceFirst, h]
  | cons c cs => rw [ht] at h; simp [replaceFirst, h]

end DiceTray.Text
