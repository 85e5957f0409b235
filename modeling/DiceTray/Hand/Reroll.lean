import DiceTray.Hand

namespace DiceTray.Hand

variable {σ : Type}

def redraw (r : Roller σ) (faces : Faces) : List (Bool × Die) → σ → List (Bool × Die) × σ
  | [], s => ([], s)
  | (false, d) :: rest, s =>
      let (rest, s) := redraw r faces rest s
      ((false, d) :: rest, s)
  | (true, d) :: rest, s =>
      let (v, s) := r.draw faces s
      let (rest, s) := redraw r faces rest s
      ((true, { d with value := v }.mark .rerolled) :: rest, s)

def redrawWhile (r : Roller σ) (faces : Faces) (trigger : List Condition) :
    Nat → List (Bool × Die) → σ → List (Bool × Die) × σ
  | 0, batch, s => (batch, s)
  | times + 1, batch, s =>
      if batch.any fun (chosen, d) => chosen && fires trigger d.value then
        let (batch, s) := redraw r faces batch s
        redrawWhile r faces trigger times batch s
      else (batch, s)

/-- Rerolls the dice that fire at first, all of them in each round. -/
def reroll (r : Roller σ) (faces : Faces) (times : Nat) (trigger : List Condition) (h : Hand)
    (s : σ) : Hand × σ :=
  let (batch, s) := redrawWhile r faces trigger times (h.map fun d => (fires trigger d.value, d)) s
  (batch.map (·.2), s)

end DiceTray.Hand
