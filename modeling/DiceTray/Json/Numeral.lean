import DiceTray.Decimal.Reading
import DiceTray.Number

namespace DiceTray.Json

open Decimal

def numeral? (cs : List Char) : Option Numeral :=
  let (negative, body) :=
    match cs with
    | '-' :: rest => (true, rest)
    | rest => (false, rest)
  match Numeral.readUnsigned? negative body with
  | some n =>
      match n.whole, n.fraction with
      | [], _ => none
      | _, some [] => none
      | 0 :: _ :: _, _ => none
      | _, _ => some n
  | none => none

def gather : Nat → List Digit → Nat × Nat
  | m, [] => (m, 0)
  | m, d :: ds =>
      if 10 * m + d.val < wordLimit then gather (10 * m + d.val) ds else (m, ds.length + 1)

/-- A numeral as a word and a power of ten. Digits of the integer part that the word cannot take
count as zeros, and those of the fraction are left out. -/
def approximate (n : Numeral) : Nat × Int :=
  let (m, beyond) := gather 0 n.whole
  let fraction := n.fraction.getD []
  let (m, left) := gather m fraction
  (m, n.exponent.getD 0 + beyond - (fraction.length - left : Nat))

def maxPower : Nat := 308

def tenTo (n : Nat) : Float := Float.ofScientific 1 false n

def scale? (x : Float) (e : Int) : Option Float :=
  if 0 ≤ e then
    if e ≤ maxPower then
      let y := x * tenTo e.toNat
      if y.isInf then none else some y
    else if x == 0.0 then some x else none
  else if -maxPower ≤ e then some (x / tenTo e.natAbs)
  else some (x / tenTo maxPower / tenTo (min (e.natAbs - maxPower) maxPower))

def double? (n : Numeral) : Option Float :=
  let (m, e) := approximate n
  (scale? m.toUInt64.toFloat e).map (withSign n.negative)

/-- An integer that fits a word is one, but `-0` is a double as is every other number. -/
def number? (n : Numeral) : Option Number :=
  match n.integer?.bind fit? with
  | some i => if i = 0 ∧ n.negative then (double? n).map .real else some (.int i)
  | none => (double? n).map .real

def numeralOf? : Number → Option Numeral
  | .int i => some (Numeral.ofInt i.toInt)
  | .real x => if x.isFinite then some (markedNumeral x) else none

end DiceTray.Json
