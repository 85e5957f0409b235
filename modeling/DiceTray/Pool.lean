import DiceTray.Notation
import DiceTray.Pool.Dice

namespace DiceTray

inductive Content where
  | fixed (value : Number)
  | dice (d : Dice)
  | stunt (d : Dice)

structure Pool where
  source : String
  content : Content

namespace Pool

variable {σ : Type}

def literal (value : Number) (source : String) : Pool := ⟨source, .fixed value⟩

def ofNotation (r : Roller σ) (source : String) (n : Notation) (s : σ) : Pool × σ :=
  match n with
  | .fixed value => (literal value source, s)
  | .dice count faces =>
      let (d, s) := Dice.create r count faces s
      (⟨source, .dice d⟩, s)

def stuntDice : Nat := 3

def stunt (r : Roller σ) (source : String) (s : σ) : Pool × σ :=
  let (d, s) := Dice.create r stuntDice Faces.d6 s
  (⟨source, .stunt d⟩, s)

def read (r : Roller σ) (source data : String) (s : σ) : Except Fault (Pool × σ) :=
  (Notation.read data).map fun n => ofNotation r source n s

def dice? (p : Pool) : Option Dice :=
  match p.content with
  | .fixed _ => none
  | .dice d => some d
  | .stunt d => some d

def withDice (d : Dice) (p : Pool) : Pool :=
  match p.content with
  | .fixed _ => p
  | .dice _ => { p with content := .dice d }
  | .stunt _ => { p with content := .stunt d }

def denotation (p : Pool) : Notation :=
  match p.content with
  | .fixed value => .fixed value
  | .dice d => .dice d.count d.faces
  | .stunt d => .dice d.count d.faces

def change (f : Dice → Dice) (p : Pool) : Except Fault Pool :=
  match p.dice? with
  | none => .error .modifiersNotAllowed
  | some d => .ok (p.withDice (f d))

def changeFrom (f : Dice → σ → Dice × σ) (p : Pool) (s : σ) : Except Fault (Pool × σ) :=
  match p.dice? with
  | none => .error .modifiersNotAllowed
  | some d =>
      let (d, s) := f d s
      .ok (p.withDice d, s)

def keepHigh (n : Nat) (p : Pool) : Except Fault Pool :=
  p.change fun d => { d with hand := d.hand.keepHigh n }

def keepLow (n : Nat) (p : Pool) : Except Fault Pool :=
  p.change fun d => { d with hand := d.hand.keepLow n }

def reroll (r : Roller σ) (times : Nat) (conditions : List Condition) (p : Pool) (s : σ) :
    Except Fault (Pool × σ) :=
  p.changeFrom (Dice.reroll r times conditions) s

def explode (r : Roller σ) (times : Nat) (conditions : List Condition) (p : Pool) (s : σ) :
    Except Fault (Pool × σ) :=
  p.changeFrom (Dice.explode r times conditions) s

def explodeInto (r : Roller σ) (times : Nat) (conditions : List Condition) (p : Pool) (s : σ) :
    Except Fault (Pool × σ) :=
  p.changeFrom (Dice.explodeInto r times conditions) s

def countSuccesses (conditions : List Condition) (p : Pool) : Except Fault Pool :=
  p.change fun d => d.countSuccesses conditions

def setModifier (phase : Phase) (m : Modifier) (p : Pool) : Except Fault Pool :=
  p.change fun d => { d with modifiers := d.modifiers.set m phase }

def setConditions (conditions : List Condition) (p : Pool) : Except Fault Pool :=
  p.change fun d => { d with conditions }

def roll (r : Roller σ) (p : Pool) (s : σ) : List Number × Pool × σ :=
  match p.content with
  | .fixed value => ([value], p, s)
  | .dice d =>
      let (vs, d, s) := d.roll r s
      (vs.map .int, { p with content := .dice d }, s)
  | .stunt d =>
      let (vs, d, s) := d.roll r s
      (vs.map .int, { p with content := .stunt d }, s)

theorem roll_of_fixed {p : Pool} {n : Number} (h : p.content = .fixed n) (r : Roller σ) (s : σ) :
    p.roll r s = ([n], p, s) := by
  rw [roll, h]

def result (p : Pool) : Number :=
  match p.content with
  | .fixed value => value
  | .dice d => d.hand.result
  | .stunt d => d.hand.result

def hand (p : Pool) : Hand :=
  match p.dice? with
  | none => []
  | some d => d.hand

def doubles (h : Hand) : Bool := (h.map Die.total).eraseDups.length < stuntDice

def handPoints? (h : Hand) : Option Int64 :=
  if doubles h then h.head?.map Die.value else none

def stuntPoints? (p : Pool) : Option Int64 :=
  match p.content with
  | .stunt d => handPoints? d.hand
  | _ => none

theorem stuntPoints?_of_fixed {p : Pool} {n : Number} (h : p.content = .fixed n) :
    p.stuntPoints? = none := by
  rw [stuntPoints?, h]

def stuntChars (h : Hand) : List Char :=
  match h with
  | d :: rest =>
      if doubles h then Hand.listText ((d.valueChars ++ ['S']) :: rest.map Die.chars) else h.chars
  | [] => h.chars

def chars (p : Pool) : List Char :=
  match p.content with
  | .fixed value => value.chars
  | .dice d => d.hand.chars
  | .stunt d => stuntChars d.hand

def text (p : Pool) : String := String.ofList p.chars

end Pool

end DiceTray
