namespace DiceTray.Decimal

abbrev Digit := Fin 10

def Digit.zero : Digit := ⟨0, by decide⟩

def Digit.isZero (d : Digit) : Bool := d.val == 0

def zeros (n : Nat) : List Digit := List.replicate n Digit.zero

def Digit.char (d : Digit) : Char := Char.ofNat (48 + d.val)

def Digit.ofChar? (c : Char) : Option Digit :=
  if h : 48 ≤ c.toNat ∧ c.toNat < 58 then some ⟨c.toNat - 48, by omega⟩ else none

theorem Digit.ofChar?_char (d : Digit) : Digit.ofChar? d.char = some d := by
  revert d
  decide

theorem Digit.char_of_ofChar? {c : Char} {d : Digit} (h : Digit.ofChar? c = some d) :
    d.char = c := by
  unfold Digit.ofChar? at h
  split at h
  case isTrue hc =>
      cases h
      simp only [Digit.char]
      rw [show 48 + (c.toNat - 48) = c.toNat by omega]
      exact Char.ofNat_toNat c
  case isFalse => cases h

def spanDigits : List Char → List Digit × List Char
  | [] => ([], [])
  | c :: cs =>
      match Digit.ofChar? c with
      | some d => let (ds, rest) := spanDigits cs; (d :: ds, rest)
      | none => ([], c :: cs)

def value (ds : List Digit) : Nat := ds.foldl (fun n d => 10 * n + d.val) 0

theorem value_append_digit (ds : List Digit) (d : Digit) :
    value (ds ++ [d]) = 10 * value ds + d.val := by
  simp [value]

def digitsAux : Nat → Nat → List Digit
  | 0, _ => []
  | fuel + 1, n =>
      if n < 10 then [Fin.ofNat 10 n] else digitsAux fuel (n / 10) ++ [Fin.ofNat 10 n]

def digits (n : Nat) : List Digit := digitsAux (n + 1) n

theorem value_digitsAux (fuel n : Nat) (h : n < fuel) : value (digitsAux fuel n) = n := by
  induction fuel generalizing n with
  | zero => omega
  | succ fuel ih =>
      unfold digitsAux
      split
      · simp [value, Nat.mod_eq_of_lt (by assumption)]
      · rw [value_append_digit, ih (n / 10) (by omega)]
        simp only [Fin.val_ofNat]
        omega

theorem value_digits (n : Nat) : value (digits n) = n :=
  value_digitsAux (n + 1) n (by omega)

end DiceTray.Decimal
