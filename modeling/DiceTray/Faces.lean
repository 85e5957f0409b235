import DiceTray.Number

namespace DiceTray

structure Faces where
  low : Int64
  high : Int64
  deriving DecidableEq, Repr

namespace Faces

def d6 : Faces := ⟨1, 6⟩

def percentile : Faces := ⟨1, 100⟩

def fudge : Faces := ⟨-1, 1⟩

def between (a b : Int64) : Faces := if b < a then ⟨b, a⟩ else ⟨a, b⟩

theorem low_le_high_between (a b : Int64) : (between a b).low ≤ (between a b).high := by
  unfold between
  split
  · exact Int64.le_of_lt (by assumption)
  · exact Int64.not_lt.mp (by assumption)

def ofBounds (first : Option Int64) (last : Int64) : Faces :=
  between (first.getD (if last < 0 then -1 else 1)) last

def span (f : Faces) : Int := f.high.toInt - f.low.toInt + 1

def wordText (n : Int64) : String := (Number.int n).text

def text (f : Faces) : String :=
  if f = fudge then "F"
  else if f.low = 1 then wordText f.high
  else "[" ++ wordText f.low ++ "," ++ wordText f.high ++ "]"

end Faces

end DiceTray
