import DiceTray.Decimal.Digit
import DiceTray.Decimal.Dyadic

namespace DiceTray.Decimal

inductive Tie where
  | up
  | even
  deriving DecidableEq, Repr

def Tie.choose : Tie → Nat → Nat
  | .up, n => n + 1
  | .even, n => if n % 2 = 0 then n else n + 1

def roundQuotient (tie : Tie) (n d : Nat) : Nat :=
  match compare (2 * (n % d)) d with
  | .lt => n / d
  | .gt => n / d + 1
  | .eq => tie.choose (n / d)

/-- The reals that a double stands for: those from `low` to `high`, all over `denominator`. -/
structure Span where
  low : Nat
  value : Nat
  high : Nat
  denominator : Nat
  closed : Bool
  deriving DecidableEq, Repr

/-- From halfway to the double below to halfway to the double above, the ends included when the
mantissa is even. -/
def Dyadic.span (x : Dyadic) : Span :=
  let unit := Nat.pow 2 (x.exponent - 2).toNat
  { low := (4 * x.mantissa - if x.narrow then 1 else 2) * unit
    value := 4 * x.mantissa * unit
    high := (4 * x.mantissa + 2) * unit
    denominator := Nat.pow 2 (2 - x.exponent).toNat
    closed := x.mantissa % 2 = 0 }

namespace Span

def mem (s : Span) (n : Nat) (e : Int) : Bool :=
  let scale := Nat.pow 10 (-e).toNat
  let point := n * (s.denominator * Nat.pow 10 e.toNat)
  if s.closed then s.low * scale ≤ point ∧ point ≤ s.high * scale
  else s.low * scale < point ∧ point < s.high * scale

def nearest? (s : Span) (tie : Tie) (e : Int) : Option Nat :=
  let n := s.value * Nat.pow 10 (-e).toNat
  let d := s.denominator * Nat.pow 10 e.toNat
  match s.mem (n / d) e, s.mem (n / d + 1) e with
  | false, false => none
  | true, false => some (n / d)
  | false, true => some (n / d + 1)
  | true, true => some (roundQuotient tie n d)

def top (s : Span) : Int :=
  if s.denominator ≤ s.value then (digits (s.value / s.denominator)).length
  else 2 - ((digits (s.denominator / s.value)).length : Int)

end Span

structure Scaled where
  coefficient : Nat
  scale : Int
  deriving DecidableEq, Repr

/-- Seventeen digits tell all doubles apart, and the search starts up to two above the first. -/
def maxDigits : Nat := 20

def Dyadic.shortest (tie : Tie) (x : Dyadic) : Scaled :=
  let s := x.span
  let found := (List.range maxDigits).findSome? fun (i : Nat) =>
    let e := s.top - i
    (s.nearest? tie e).map fun n => (⟨n, e⟩ : Scaled)
  match found with
  | some d => d
  | none =>
      if x.exponent < 0 then ⟨x.mantissa * Nat.pow 5 (-x.exponent).toNat, x.exponent⟩
      else ⟨x.numerator, 0⟩

end DiceTray.Decimal
