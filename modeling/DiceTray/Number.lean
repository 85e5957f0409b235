import DiceTray.Decimal.Layout

namespace DiceTray

def Fits (n : Int) : Prop := -9223372036854775808 ≤ n ∧ n ≤ 9223372036854775807

instance (n : Int) : Decidable (Fits n) := inferInstanceAs (Decidable (_ ∧ _))

theorem fits_toInt (x : Int64) : Fits x.toInt := by
  have h := x.le_toInt
  have h' := x.toInt_lt
  unfold Fits
  omega

def fit? (n : Int) : Option Int64 := if Fits n then some (Int64.ofInt n) else none

theorem toInt_ofInt {n : Int} (h : Fits n) : (Int64.ofInt n).toInt = n :=
  Int64.toInt_ofInt_of_le h.1 (by have h' := h.2; omega)

theorem fit?_eq_some_iff {n : Int} {x : Int64} : fit? n = some x ↔ x.toInt = n := by
  unfold fit?
  split
  case isTrue h =>
      constructor
      · intro he
        cases he
        exact toInt_ofInt h
      · intro he
        subst he
        simp
  case isFalse h =>
      constructor
      · intro he
        cases he
      · intro he
        subst he
        exact absurd (fits_toInt x) h

theorem fit?_eq_none_iff {n : Int} : fit? n = none ↔ ¬ Fits n := by
  unfold fit?
  split <;> simp_all

def saturate (n : Int) : Int64 :=
  if Fits n then Int64.ofInt n
  else if n < 0 then Int64.minValue
  else Int64.maxValue

def toDouble (x : Int64) : Float :=
  let magnitude := x.toInt.natAbs.toUInt64.toFloat
  if x < 0 then -magnitude else magnitude

def truncate (x : Float) : Int64 :=
  let magnitude : Int := x.abs.toUInt64.toNat
  saturate (if x < 0.0 then -magnitude else magnitude)

inductive Number where
  | int (n : Int64)
  | real (x : Float)

namespace Number

def zero : Number := .int 0

def toReal : Number → Float
  | .int n => toDouble n
  | .real x => x

def toWord : Number → Int64
  | .int n => n
  | .real x => truncate x

def exactly (exact : Option Int) (real : Float) : Number :=
  match exact.bind fit? with
  | some n => .int n
  | none => .real real

def add : Number → Number → Number
  | .int a, .int b => exactly (some (a.toInt + b.toInt)) (toDouble a + toDouble b)
  | a, b => .real (a.toReal + b.toReal)

def sub : Number → Number → Number
  | .int a, .int b => exactly (some (a.toInt - b.toInt)) (toDouble a - toDouble b)
  | a, b => .real (a.toReal - b.toReal)

def mul : Number → Number → Number
  | .int a, .int b => exactly (some (a.toInt * b.toInt)) (toDouble a * toDouble b)
  | a, b => .real (a.toReal * b.toReal)

def div (a b : Number) : Number := .real (a.toReal / b.toReal)

def exponentLimit : Int := 4294967296

/-- The power of an integer with an exponent of 32 bits. No base beyond `-1`, `0` and `1` has a
power from the 64th on that fits a word. -/
def intPow? (a b : Int64) : Option Int :=
  if 0 ≤ b.toInt ∧ b.toInt < exponentLimit then
    if a.toInt.natAbs ≤ 1 ∨ b.toInt < 64 then
      let magnitude : Int := Nat.pow a.toInt.natAbs b.toInt.toNat
      some (if a < 0 ∧ b.toInt % 2 = 1 then -magnitude else magnitude)
    else none
  else none

def pow : Number → Number → Number
  | .int a, .int b => exactly (intPow? a b) (Float.pow (toDouble a) (toDouble b))
  | a, b => .real (Float.pow a.toReal b.toReal)

def sum (ns : List Number) : Number := ns.foldl add zero

def same : Number → Number → Bool
  | .int a, .int b => a == b
  | a, b => a.toReal == b.toReal

def compareReal? (a b : Float) : Option Ordering :=
  if a < b then some .lt
  else if a == b then some .eq
  else if b < a then some .gt
  else none

def compare? : Number → Number → Option Ordering
  | .int a, .int b => some (compare a.toInt b.toInt)
  | a, b => compareReal? a.toReal b.toReal

def chars : Number → List Char
  | .int n => (Decimal.Numeral.ofInt n.toInt).text
  | .real x => Decimal.plainText x

def text (n : Number) : String := String.ofList n.chars

end Number

end DiceTray
