import DiceTray.Hand

namespace DiceTray.Hand

variable {σ : Type}

def chain (r : Roller σ) (faces : Faces) (trigger : List Condition) :
    Nat → Int64 → σ → List Int64 × σ
  | 0, _, s => ([], s)
  | times + 1, last, s =>
      if fires trigger last then
        let (v, s) := r.draw faces s
        let (vs, s) := chain r faces trigger times v s
        (v :: vs, s)
      else ([], s)

def expand (r : Roller σ) (faces : Faces) (times : Nat) (trigger : List Condition)
    (join : Die → List Int64 → Hand) : Hand → σ → Hand × σ
  | [], s => ([], s)
  | d :: rest, s =>
      let (vs, s) := chain r faces trigger times d.value s
      let (rest, s) := expand r faces times trigger join rest s
      (join d vs ++ rest, s)

def joinBeside (d : Die) : List Int64 → Hand
  | [] => [d]
  | vs => d.mark .exploded :: vs.map fun v => (Die.fresh v).mark .exploded

def saturatingAdd (a b : Int64) : Int64 := saturate (a.toInt + b.toInt)

def joinInto (d : Die) : List Int64 → Hand
  | [] => [d]
  | vs => [{ d with value := vs.foldl saturatingAdd d.value }.mark .exploded]

def explode (r : Roller σ) (faces : Faces) (times : Nat) (trigger : List Condition) (h : Hand)
    (s : σ) : Hand × σ :=
  expand r faces times trigger joinBeside h s

def explodeInto (r : Roller σ) (faces : Faces) (times : Nat) (trigger : List Condition) (h : Hand)
    (s : σ) : Hand × σ :=
  expand r faces times trigger joinInto h s

end DiceTray.Hand
