import DiceTray.Hand.Explode
import DiceTray.Hand.Keep
import DiceTray.Hand.Reroll
import DiceTray.Hand.Success
import DiceTray.Modifier

namespace DiceTray

structure Dice where
  count : Nat
  faces : Faces
  hand : Hand := []
  modifiers : Modifiers := {}
  conditions : List Condition := []

namespace Dice

variable {σ : Type}

def default (faces : Faces) : Phase → Condition
  | .reroll => .equalTo faces.low
  | _ => .equalTo faces.high

def apply (r : Roller σ) (faces : Faces) (phase : Phase) (m : Modifier) (h : Hand) (s : σ) :
    Hand × σ :=
  let t := trigger m.conditions (default faces phase)
  match phase with
  | .keepHigh => (h.keepHigh m.magnitude, s)
  | .keepLow => (h.keepLow m.magnitude, s)
  | .reroll => h.reroll r faces m.magnitude t s
  | .explode => h.explode r faces m.magnitude t s
  | .explodeInto => h.explodeInto r faces m.magnitude t s

def applyAll (r : Roller σ) (faces : Faces) (ms : Modifiers) :
    List Phase → Hand → σ → Hand × σ
  | [], h, s => (h, s)
  | p :: ps, h, s =>
      match ms.get? p with
      | none => applyAll r faces ms ps h s
      | some m =>
          let (h, s) := apply r faces p m h s
          applyAll r faces ms ps h s

def create (r : Roller σ) (count : Nat) (faces : Faces) (s : σ) : Dice × σ :=
  let (hand, s) := Hand.draw r faces count s
  ({ count, faces, hand }, s)

def reroll (r : Roller σ) (times : Nat) (conditions : List Condition) (d : Dice) (s : σ) :
    Dice × σ :=
  let (hand, s) := d.hand.reroll r d.faces times (trigger conditions (.equalTo d.faces.low)) s
  ({ d with hand }, s)

def explode (r : Roller σ) (times : Nat) (conditions : List Condition) (d : Dice) (s : σ) :
    Dice × σ :=
  let (hand, s) := d.hand.explode r d.faces times (trigger conditions (.equalTo d.faces.high)) s
  ({ d with hand }, s)

def explodeInto (r : Roller σ) (times : Nat) (conditions : List Condition) (d : Dice) (s : σ) :
    Dice × σ :=
  let (hand, s) := d.hand.explodeInto r d.faces times (trigger conditions (.equalTo d.faces.high)) s
  ({ d with hand }, s)

def countSuccesses (conditions : List Condition) (d : Dice) : Dice :=
  { d with hand := d.hand.countSuccesses conditions }

def roll (r : Roller σ) (d : Dice) (s : σ) : List Int64 × Dice × σ :=
  let (drawn, s) := Hand.draw r d.faces d.count s
  let (hand, s) := applyAll r d.faces d.modifiers Phase.all drawn s
  (drawn.values, { d with hand := hand.countSuccesses d.conditions }, s)

end Dice

end DiceTray
