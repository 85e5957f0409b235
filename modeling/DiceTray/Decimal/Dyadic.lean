namespace DiceTray.Decimal

structure Dyadic where
  mantissa : Nat
  exponent : Int
  narrow : Bool
  deriving DecidableEq, Repr

def negativeBit (x : Float) : Bool := x.toBits >>> 63 == 1

namespace Dyadic

def ofFloat (x : Float) : Dyadic :=
  let exponent := ((x.toBits >>> 52) &&& 0x7FF).toNat
  let fraction := (x.toBits &&& 0xFFFFFFFFFFFFF).toNat
  if exponent = 0 then ⟨fraction, -1074, false⟩
  else ⟨0x10000000000000 + fraction, (exponent : Int) - 1075, fraction = 0 ∧ 1 < exponent⟩

def numerator (x : Dyadic) : Nat := x.mantissa * Nat.pow 2 x.exponent.toNat

def denominator (x : Dyadic) : Nat := Nat.pow 2 (-x.exponent).toNat

end Dyadic

end DiceTray.Decimal
