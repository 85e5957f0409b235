import DiceTray.Condition
import DiceTray.Decimal.Reading
import DiceTray.Fault
import DiceTray.Modifier

namespace DiceTray

inductive ModifierWord where
  | keepHigh
  | keepLow
  | dropHigh
  | dropLow
  | explode
  | explodeInto
  | reroll
  deriving DecidableEq, Repr

namespace ModifierWord

def symbol : ModifierWord → String
  | .keepHigh => "kh"
  | .keepLow => "kl"
  | .dropHigh => "dh"
  | .dropLow => "dl"
  | .explode => "!"
  | .explodeInto => "!!"
  | .reroll => "r"

def all : List ModifierWord :=
  [.keepHigh, .keepLow, .dropHigh, .dropLow, .explode, .explodeInto, .reroll]

end ModifierWord

inductive TokenKind where
  | dice
  | stunt
  | math
  | operator (op : Operator)
  | modifier (word : ModifierWord)
  deriving DecidableEq, Repr

namespace TokenKind

def symbol : TokenKind → String
  | .dice => "dice"
  | .stunt => "stunt"
  | .math => "math"
  | .operator op => op.text
  | .modifier word => word.symbol

def all : List TokenKind :=
  [.dice, .stunt, .math] ++ Operator.all.map .operator ++ ModifierWord.all.map .modifier

def ofSymbol? (s : String) : Option TokenKind := all.find? fun k => k.symbol = s

def isPool : TokenKind → Bool
  | .dice => true
  | .stunt => true
  | _ => false

def isModifier : TokenKind → Bool
  | .modifier _ => true
  | _ => false

def operator? : TokenKind → Option Operator
  | .operator op => some op
  | _ => none

end TokenKind

structure Token where
  kind : TokenKind
  text : String
  data : String
  conditions : List Condition

def Operator.read (s : String) : Except Fault Operator :=
  match Operator.ofText? s with
  | some op => .ok op
  | none => .error (.malformed (.unknownOperator (Text.trimmed s)))

def readMagnitude? (cs : List Char) : Option Nat :=
  match (Decimal.readNat? cs).filter fun n => decide (n < Decimal.wordLimit) with
  | some n => some n
  | none =>
      match Decimal.readDouble? cs with
      | some x => if x.isFinite ∧ 0.0 ≤ x then some x.toUInt64.toNat else none
      | none => none

namespace Token

def dice (written : String) : Token := ⟨.dice, written, written, []⟩

def stunt (written : String) : Token := ⟨.stunt, written, written, []⟩

def math (op : Operator) : Token := ⟨.math, op.text, op.text, []⟩

def operator? (t : Token) : Option (Except Fault Operator) :=
  match t.kind with
  | .math => some (Operator.read t.data)
  | kind => kind.operator?.map .ok

def magnitude? (t : Token) : Option Nat := readMagnitude? (Text.trim t.data.toList)

end Token

namespace ModifierWord

def amount (t : Token) : Nat := t.magnitude?.getD 1

def times (t : Token) : Nat := max 1 (amount t)

def modifier (word : ModifierWord) (t : Token) (count : Nat) : Phase × Modifier :=
  match word with
  | .keepHigh => (.keepHigh, { magnitude := amount t })
  | .keepLow => (.keepLow, { magnitude := amount t })
  | .dropHigh => (.keepLow, { magnitude := count - amount t })
  | .dropLow => (.keepHigh, { magnitude := count - amount t })
  | .explode => (.explode, { magnitude := times t, conditions := t.conditions })
  | .explodeInto => (.explodeInto, { magnitude := times t, conditions := t.conditions })
  | .reroll => (.reroll, { magnitude := times t, conditions := t.conditions })

end ModifierWord

end DiceTray
