import DiceTray.Faces
import DiceTray.Fault
import DiceTray.Notation.Symbol

namespace DiceTray

open Decimal

inductive Notation where
  | fixed (value : Number)
  | dice (count : Nat) (faces : Faces)

namespace Notation

def word? (ds : List Digit) : Option Int64 := fit? (value ds)

def bound? : List Symbol → Option (Int64 × List Symbol)
  | .minus :: .integer ds :: rest => (word? ds).map fun n => (-n, rest)
  | .integer ds :: rest => (word? ds).map fun n => (n, rest)
  | _ => none

def bracketed? (symbols : List Symbol) : Option Faces :=
  match bound? symbols with
  | some (last, [.closeBracket]) => some (Faces.ofBounds none last)
  | some (first, .comma :: rest) =>
      match bound? rest with
      | some (last, [.closeBracket]) => some (Faces.ofBounds (some first) last)
      | _ => none
  | _ => none

def faces? : List Symbol → Option Faces
  | [.percent] => some Faces.percentile
  | [.fudge] => some Faces.fudge
  | .openBracket :: rest => bracketed? rest
  | symbols =>
      match bound? symbols with
      | some (last, []) => some (Faces.ofBounds none last)
      | _ => none

def dice? (count : Int64) (symbols : List Symbol) : Option Notation :=
  if 0 < count then (faces? symbols).map (Notation.dice count.toInt.toNat) else none

def fixedWord (negative : Bool) (n : Int64) : Notation :=
  .fixed (.int (if negative then -n else n))

def fixedReal (negative : Bool) (whole fraction : List Digit) : Notation :=
  .fixed (.real (Numeral.nearest ⟨negative, whole, some fraction, none⟩))

def ofSymbols? : List Symbol → Option Notation
  | .die :: rest => dice? 1 rest
  | .integer ds :: .die :: rest => (word? ds).bind fun n => dice? n rest
  | [.integer ds] => (word? ds).map (fixedWord false)
  | [.minus, .integer ds] => (word? ds).map (fixedWord true)
  | [.decimal whole fraction] => some (fixedReal false whole fraction)
  | [.minus, .decimal whole fraction] => some (fixedReal true whole fraction)
  | _ => none

def ofText? (s : String) : Option Notation := (Symbol.ofChars? s.toList).bind ofSymbols?

def read (s : String) : Except Fault Notation :=
  match ofText? s with
  | some n => .ok n
  | none => .error (.invalidNotation s)

end Notation

end DiceTray
