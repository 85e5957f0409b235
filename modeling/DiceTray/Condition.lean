import DiceTray.Number

namespace DiceTray

inductive Comparison where
  | equal
  | notEqual
  | less
  | lessEqual
  | greater
  | greaterEqual
  | negate
  deriving DecidableEq, Repr

namespace Comparison

def symbol : Comparison → String
  | .equal => "="
  | .notEqual => "!="
  | .less => "<"
  | .lessEqual => "<="
  | .greater => ">"
  | .greaterEqual => ">="
  | .negate => "-="

def all : List Comparison :=
  [.equal, .notEqual, .less, .lessEqual, .greater, .greaterEqual, .negate]

def ofSymbol? (s : String) : Option Comparison :=
  if s = "=!" then some .notEqual
  else if s = "=-" then some .negate
  else all.find? fun c => c.symbol = s

def holds (c : Comparison) (value bound : Float) : Bool :=
  if value.isNaN || bound.isNaN then false
  else
    match c with
    | .equal => value == bound
    | .notEqual => value != bound
    | .less => value < bound
    | .lessEqual => value ≤ bound
    | .greater => bound < value
    | .greaterEqual => bound ≤ value
    | .negate => false

end Comparison

structure Condition where
  comparison : Comparison
  bound : Float

namespace Condition

def equalTo (n : Int64) : Condition := ⟨.equal, toDouble n⟩

def isNegate (c : Condition) : Bool := c.comparison = .negate

def holds (c : Condition) (value : Number) : Bool := c.comparison.holds value.toReal c.bound

def text (c : Condition) : String := c.comparison.symbol ++ (Number.real c.bound).text

end Condition

def anyHolds (cs : List Condition) (value : Number) : Bool := cs.any fun c => c.holds value

def verdict? (cs : List Condition) (value : Number) : Option Bool :=
  if cs.isEmpty then none else some (anyHolds cs value)

def trigger (cs : List Condition) (default : Condition) : List Condition :=
  if cs.isEmpty then [default] else cs

end DiceTray
