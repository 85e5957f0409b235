import DiceTray.Decimal.Numeral

namespace DiceTray.Decimal

def infinity : Float := Float.ofBits 0x7FF0000000000000

def nan : Float := Float.ofBits 0x7FF8000000000000

def wordLimit : Nat := 18446744073709551616

def withSign (negative : Bool) (x : Float) : Float := if negative then -x else x

/-- The double nearest to `value ds * 10 ^ e`. A value of `10 ^ 310` or more is past every double,
and one below `10 ^ (-330)` is nearest to zero. -/
def nearestDouble (ds : List Digit) (e : Int) : Float :=
  let n := value ds
  if n = 0 then 0.0
  else
    let top := ((ds.dropWhile Digit.isZero).length : Int) + e
    if 310 < top then infinity
    else if top < -330 then 0.0
    else Float.ofScientific n (e < 0) e.natAbs

namespace Numeral

def nearest (n : Numeral) : Float :=
  withSign n.negative (nearestDouble n.coefficient n.scale)

end Numeral

def lowerAscii (cs : List Char) : List Char := cs.map Char.toLower

def readDouble? (cs : List Char) : Option Float :=
  let (negative, body) :=
    match cs with
    | '-' :: rest => (true, rest)
    | '+' :: rest => (false, rest)
    | rest => (false, rest)
  let word := lowerAscii body
  if word = "inf".toList ∨ word = "infinity".toList then some (withSign negative infinity)
  else if word = "nan".toList then some nan
  else
    match Numeral.readUnsigned? negative body with
    | some n => if n.coefficient = [] then none else some n.nearest
    | none => none

def readNat? (cs : List Char) : Option Nat :=
  let body :=
    match cs with
    | '+' :: rest => rest
    | rest => rest
  match spanDigits body with
  | (d :: ds, []) => some (value (d :: ds))
  | _ => none

end DiceTray.Decimal
