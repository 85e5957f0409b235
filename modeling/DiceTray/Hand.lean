import DiceTray.Condition
import DiceTray.Die
import DiceTray.Roller

namespace DiceTray

abbrev Hand := List Die

namespace Hand

variable {σ : Type}

def draw (r : Roller σ) (faces : Faces) (count : Nat) (s : σ) : Hand × σ :=
  let (vs, s) := r.drawMany faces count s
  (vs.map Die.fresh, s)

theorem length_draw (r : Roller σ) (faces : Faces) (count : Nat) (s : σ) :
    (draw r faces count s).1.length = count :=
  (List.length_map ..).trans (r.length_drawMany faces count s)

def values (h : Hand) : List Int64 := h.map Die.value

def result (h : Hand) : Number := Number.sum (h.map fun d => .int d.total)

def listText (texts : List (List Char)) : List Char :=
  '[' :: ([',', ' '].intercalate texts ++ [']'])

def chars (h : Hand) : List Char := listText (h.map Die.chars)

end Hand

def fires (trigger : List Condition) (value : Int64) : Bool := anyHolds trigger (.int value)

end DiceTray
