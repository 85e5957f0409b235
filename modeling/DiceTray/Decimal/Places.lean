import DiceTray.Decimal.Shortest

namespace DiceTray.Decimal

def fixedPlaces (places : Nat) (x : Float) : List Digit × List Digit :=
  let d := Dyadic.ofFloat x
  let n := roundQuotient .even (d.numerator * Nat.pow 10 places) d.denominator
  let ds := digits n
  let ds := zeros (places + 1 - ds.length) ++ ds
  (ds.take (ds.length - places), ds.drop (ds.length - places))

end DiceTray.Decimal
