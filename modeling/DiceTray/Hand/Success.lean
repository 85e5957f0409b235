import DiceTray.Hand

namespace DiceTray.Hand

/-- The value that counts as a failure is that of the first such condition. -/
def failure? (conditions : List Condition) : Option Float :=
  (conditions.find? Condition.isNegate).map Condition.bound

def isFailure (conditions : List Condition) (value : Int64) : Bool :=
  match failure? conditions with
  | some bound => toDouble value == bound
  | none => false

def judge (conditions : List Condition) (d : Die) : Die :=
  if isFailure conditions d.value then { d with value := -1 }.mark .failure
  else if anyHolds conditions (.int d.value) then { d with value := 1 }.mark .success
  else { d with counts := false }

def countSuccesses (conditions : List Condition) (h : Hand) : Hand :=
  if conditions.isEmpty then h else h.map (judge conditions)

end DiceTray.Hand
