import DiceTray.Json.Numeral
import DiceTray.Json.Text

namespace DiceTray.Json

open Decimal

inductive Scalar where
  | null
  | bool (b : Bool)
  | number (n : Numeral)
  | string (t : Text)
  deriving DecidableEq, Repr

inductive Value where
  | scalar (x : Scalar)
  | array (items : List Value)
  | object (members : List (Text × Value))

inductive Piece where
  | scalar (x : Scalar)
  | openArray
  | closeArray
  | openObject
  | closeObject
  | comma
  | colon
  deriving DecidableEq, Repr

def nullWord : List Char := ['n', 'u', 'l', 'l']

def trueWord : List Char := ['t', 'r', 'u', 'e']

def falseWord : List Char := ['f', 'a', 'l', 's', 'e']

namespace Scalar

def chars : Scalar → List Char
  | .null => nullWord
  | .bool true => trueWord
  | .bool false => falseWord
  | .number n => n.text
  | .string t => t.chars

def ofWord? (cs : List Char) : Option Scalar :=
  if cs = nullWord then some .null
  else if cs = trueWord then some (.bool true)
  else if cs = falseWord then some (.bool false)
  else (numeral? cs).map .number

end Scalar

namespace Piece

def chars : Piece → List Char
  | .scalar x => x.chars
  | .openArray => ['[']
  | .closeArray => [']']
  | .openObject => ['\x7b']
  | .closeObject => ['\x7d']
  | .comma => [',']
  | .colon => [':']

def ofChar? (c : Char) : Option Piece :=
  if c = '[' then some .openArray
  else if c = ']' then some .closeArray
  else if c = '\x7b' then some .openObject
  else if c = '\x7d' then some .closeObject
  else if c = ',' then some .comma
  else if c = ':' then some .colon
  else none

end Piece

namespace Value

def null : Value := .scalar .null

def bool (b : Bool) : Value := .scalar (.bool b)

def string (s : String) : Value := .scalar (.string (Text.ofString s))

def number (n : Number) : Value :=
  match numeralOf? n with
  | some m => .scalar (.number m)
  | none => null

def record (members : List (String × Value)) : Value :=
  .object (members.map fun (name, v) => (Text.ofString name, v))

mutual

def pieces : Value → List Piece
  | .scalar x => [.scalar x]
  | .array vs => .openArray :: (itemPieces vs ++ [.closeArray])
  | .object ms => .openObject :: (memberPieces ms ++ [.closeObject])

def itemPieces : List Value → List Piece
  | [] => []
  | [v] => pieces v
  | v :: vs => pieces v ++ .comma :: itemPieces vs

def memberPieces : List (Text × Value) → List Piece
  | [] => []
  | [(name, v)] => .scalar (.string name) :: .colon :: pieces v
  | (name, v) :: ms => .scalar (.string name) :: .colon :: (pieces v ++ .comma :: memberPieces ms)

end

def chars (v : Value) : List Char := v.pieces.flatMap Piece.chars

def text (v : Value) : String := String.ofList v.chars

mutual

def depth : Value → Nat
  | .scalar _ => 0
  | .array vs => itemDepth vs + 1
  | .object ms => memberDepth ms + 1

def itemDepth : List Value → Nat
  | [] => 0
  | v :: vs => max (depth v) (itemDepth vs)

def memberDepth : List (Text × Value) → Nat
  | [] => 0
  | (_, v) :: ms => max (depth v) (memberDepth ms)

end

end Value

end DiceTray.Json
