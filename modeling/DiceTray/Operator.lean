import DiceTray.Number
import DiceTray.Text.Blank

namespace DiceTray

inductive Operator where
  | add
  | sub
  | mul
  | div
  | pow
  deriving DecidableEq, Repr

namespace Operator

def all : List Operator := [.add, .sub, .mul, .div, .pow]

def symbol : Operator → Char
  | .add => '+'
  | .sub => '-'
  | .mul => '*'
  | .div => '/'
  | .pow => '^'

def text (op : Operator) : String := String.ofList [op.symbol]

def ofSymbol? : List Char → Option Operator
  | ['+'] => some .add
  | ['-'] => some .sub
  | ['*'] => some .mul
  | ['/'] => some .div
  | ['^'] => some .pow
  | _ => none

def ofText? (s : String) : Option Operator := ofSymbol? (Text.trim s.toList)

def apply : Operator → Number → Number → Number
  | .add, a, b => a.add b
  | .sub, a, b => a.sub b
  | .mul, a, b => a.mul b
  | .div, a, b => a.div b
  | .pow, a, b => a.pow b

end Operator

end DiceTray
