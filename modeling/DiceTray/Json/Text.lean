namespace DiceTray.Json

inductive Glyph where
  | char (c : Char)
  | half (unit : Nat)
  deriving DecidableEq, Repr

def Glyph.char? : Glyph → Option Char
  | .char c => some c
  | .half _ => none

abbrev Text := List Glyph

namespace Text

def ofString (s : String) : Text := s.toList.map .char

def toString? (t : Text) : Option String := (t.mapM Glyph.char?).map String.ofList

def isHigh (n : Nat) : Bool := 0xD800 ≤ n && n < 0xDC00

def isLow (n : Nat) : Bool := 0xDC00 ≤ n && n < 0xE000

def joinHalves (high low : Nat) : Char :=
  Char.ofNat (0x10000 + (high - 0xD800) * 0x400 + (low - 0xDC00))

def pushUnit (n : Nat) : Text → Text
  | .half high :: rest =>
      if isHigh high && isLow n then .char (joinHalves high n) :: rest
      else if isLow n || isHigh n then .half n :: .half high :: rest
      else .char (Char.ofNat n) :: .half high :: rest
  | rest => if isLow n || isHigh n then .half n :: rest else .char (Char.ofNat n) :: rest

def hexDigit (n : Nat) : Char := (Nat.toDigits 16 (n % 16)).headD '0'

def unitText (n : Nat) : List Char :=
  ['\\', 'u', hexDigit (n / 4096), hexDigit (n / 256), hexDigit (n / 16), hexDigit n]

def charText (c : Char) : List Char :=
  if c = '"' then ['\\', '"']
  else if c = '\\' then ['\\', '\\']
  else if c = '\x08' then ['\\', 'b']
  else if c = '\x0c' then ['\\', 'f']
  else if c = '\n' then ['\\', 'n']
  else if c = '\r' then ['\\', 'r']
  else if c = '\t' then ['\\', 't']
  else if c.toNat < 0x20 then unitText c.toNat
  else [c]

def glyphText : Glyph → List Char
  | .char c => charText c
  | .half n => unitText n

def chars (t : Text) : List Char := '"' :: (t.flatMap glyphText ++ ['"'])

def unescape? : Char → Option Char
  | '"' => some '"'
  | '\\' => some '\\'
  | '/' => some '/'
  | 'b' => some '\x08'
  | 'f' => some '\x0c'
  | 'n' => some '\n'
  | 'r' => some '\r'
  | 't' => some '\t'
  | _ => none

def hexValue? (c : Char) : Option Nat :=
  let n := c.toNat
  if 48 ≤ n ∧ n < 58 then some (n - 48)
  else if 97 ≤ n ∧ n < 103 then some (n - 87)
  else if 65 ≤ n ∧ n < 71 then some (n - 55)
  else none

def hexUnit? (a b c d : Char) : Option Nat :=
  match hexValue? a, hexValue? b, hexValue? c, hexValue? d with
  | some a, some b, some c, some d => some (a * 4096 + b * 256 + c * 16 + d)
  | _, _, _, _ => none

end Text

end DiceTray.Json
