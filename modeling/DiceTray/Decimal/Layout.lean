import DiceTray.Decimal.Numeral
import DiceTray.Decimal.Shortest

namespace DiceTray.Decimal

namespace Scaled

def plain (x : Scaled) : List Digit × List Digit :=
  let ds := digits x.coefficient
  if 0 ≤ x.scale then (ds ++ zeros x.scale.toNat, [])
  else
    let places := (-x.scale).toNat
    if places < ds.length then (ds.take (ds.length - places), ds.drop (ds.length - places))
    else (zeros 1, zeros (places - ds.length) ++ ds)

def leading (x : Scaled) : Int := (digits x.coefficient).length + x.scale - 1

end Scaled

def scaledOf (tie : Tie) (x : Float) : Scaled :=
  if x == 0.0 then ⟨0, 0⟩ else (Dyadic.ofFloat x).shortest tie

def plainNumeral (x : Float) : Numeral :=
  let (whole, fraction) := (scaledOf .up x).plain
  ⟨negativeBit x, whole, if fraction = [] then none else some fraction, none⟩

def plainText (x : Float) : List Char :=
  if x.isNaN then ['N', 'a', 'N']
  else if x.isInf then Numeral.signed (negativeBit x) ['i', 'n', 'f']
  else (plainNumeral x).text

/-- Positional with a digit after the point from `10 ^ -5` and below `10 ^ 16`, and with an
exponent outside. -/
def markedNumeral (x : Float) : Numeral :=
  let s := scaledOf .even x
  if -5 ≤ s.leading ∧ s.leading < 16 then
    let (whole, fraction) := s.plain
    ⟨negativeBit x, whole, some (if fraction = [] then zeros 1 else fraction), none⟩
  else
    let ds := digits s.coefficient
    ⟨negativeBit x, ds.take 1, if ds.drop 1 = [] then none else some (ds.drop 1), some s.leading⟩

end DiceTray.Decimal
