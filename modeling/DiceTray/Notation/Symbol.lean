import DiceTray.Decimal.Reading

namespace DiceTray

open Decimal

inductive Symbol where
  | integer (ds : List Digit)
  | decimal (whole fraction : List Digit)
  | die
  | percent
  | fudge
  | minus
  | openBracket
  | closeBracket
  | comma
  deriving DecidableEq, Repr

namespace Symbol

def mark? : Char → Option Symbol
  | 'd' => some .die
  | 'D' => some .die
  | '%' => some .percent
  | 'F' => some .fudge
  | '-' => some .minus
  | '[' => some .openBracket
  | ']' => some .closeBracket
  | ',' => some .comma
  | _ => none

def isGap (c : Char) : Bool := c = ' ' || c = '\t' || c = '\r' || c = '\n'

inductive Pending where
  | none
  | digits (rev : List Digit)
  | point (whole rev : List Digit)
  deriving DecidableEq, Repr

def Pending.add (d : Digit) : Pending → Pending
  | .none => .digits [d]
  | .digits rev => .digits (d :: rev)
  | .point whole rev => .point whole (d :: rev)

def Pending.close? : Pending → Option (List Symbol)
  | .none => some []
  | .digits rev => some [.integer rev.reverse]
  | .point [] [] => Option.none
  | .point whole rev => some [.decimal whole rev.reverse]

def Pending.dot? : Pending → Option (List Symbol × Pending)
  | .digits rev => some ([], .point rev.reverse [])
  | p => p.close?.map fun symbols => (symbols, .point [] [])

def scan : Pending → List Char → Option (List Symbol)
  | p, [] => p.close?
  | p, c :: cs =>
      match Digit.ofChar? c with
      | some d => scan (p.add d) cs
      | none =>
          if c = '.' then p.dot?.bind fun (symbols, p) => (scan p cs).map (symbols ++ ·)
          else if isGap c then
            p.close?.bind fun symbols => (scan .none cs).map (symbols ++ ·)
          else
            p.close?.bind fun symbols => (mark? c).bind fun s =>
              (scan .none cs).map fun rest => symbols ++ s :: rest

def ofChars? (cs : List Char) : Option (List Symbol) := scan .none cs

end Symbol

end DiceTray
