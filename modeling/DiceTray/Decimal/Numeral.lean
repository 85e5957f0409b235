import DiceTray.Decimal.Digit

namespace DiceTray.Decimal

structure Numeral where
  negative : Bool
  whole : List Digit
  fraction : Option (List Digit)
  exponent : Option Int
  deriving DecidableEq, Repr

namespace Numeral

def ofInt (n : Int) : Numeral := ⟨decide (n < 0), digits n.natAbs, none, none⟩

def signed (negative : Bool) (cs : List Char) : List Char := if negative then '-' :: cs else cs

def exponentText (e : Int) : List Char :=
  'e' :: (if e < 0 then '-' else '+') :: (digits e.natAbs).map Digit.char

def text (n : Numeral) : List Char :=
  signed n.negative (n.whole.map Digit.char
    ++ (match n.fraction with
        | none => []
        | some ds => '.' :: ds.map Digit.char)
    ++ (match n.exponent with
        | none => []
        | some e => exponentText e))

def coefficient (n : Numeral) : List Digit := n.whole ++ n.fraction.getD []

def scale (n : Numeral) : Int := n.exponent.getD 0 - (n.fraction.getD []).length

def integer? (n : Numeral) : Option Int :=
  match n.fraction, n.exponent with
  | none, none => some (if n.negative then -(value n.whole : Int) else value n.whole)
  | _, _ => none

def readExponent? (cs : List Char) : Option Int :=
  let (negative, ds) :=
    match cs with
    | '-' :: rest => (true, rest)
    | '+' :: rest => (false, rest)
    | rest => (false, rest)
  match spanDigits ds with
  | (d :: ds, []) => some (if negative then -(value (d :: ds) : Int) else value (d :: ds))
  | _ => none

def readTail? (negative : Bool) (whole : List Digit) (fraction : Option (List Digit)) :
    List Char → Option Numeral
  | [] => some ⟨negative, whole, fraction, none⟩
  | c :: cs =>
      if c = 'e' ∨ c = 'E' then
        (readExponent? cs).map fun e => ⟨negative, whole, fraction, some e⟩
      else none

def readUnsigned? (negative : Bool) (cs : List Char) : Option Numeral :=
  match spanDigits cs with
  | (whole, '.' :: rest) =>
      let (fraction, rest) := spanDigits rest
      readTail? negative whole (some fraction) rest
  | (whole, rest) => readTail? negative whole none rest

end Numeral

end DiceTray.Decimal
