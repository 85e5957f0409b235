import DiceTray.Operator
import DiceTray.Text.Quoted

namespace DiceTray

inductive SequenceFault where
  | unknownOperator (symbol : String)
  | modifiesNothing (text : String)
  | noOperands (op : Operator)
  | singleOperand (op : Operator)
  | valuesLeft (count : Nat)
  | nothingToRoll
  deriving DecidableEq, Repr

def SequenceFault.text : SequenceFault → String
  | .unknownOperator symbol => "unknown operator " ++ Text.quoted symbol
  | .modifiesNothing text => Text.quoted text ++ " modifies nothing"
  | .noOperands op => op.text ++ " has no operands"
  | .singleOperand op => op.text ++ " has a single operand"
  | .valuesLeft count => toString count ++ " values left after the last token"
  | .nothingToRoll => "nothing to roll"

inductive Fault where
  | invalidNotation (text : String)
  | modifiersNotAllowed
  | malformed (fault : SequenceFault)
  | invalidJson
  deriving DecidableEq, Repr

def Fault.message : Fault → String
  | .invalidNotation text => "invalid dice notation: " ++ Text.quoted text
  | .modifiersNotAllowed => "modifiers are only allowed on dice rolls"
  | .malformed fault => "malformed token sequence: " ++ fault.text
  | .invalidJson => "invalid json"

end DiceTray
