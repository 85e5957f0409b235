import DiceTray.Condition

namespace DiceTray

inductive Phase where
  | keepHigh
  | keepLow
  | reroll
  | explode
  | explodeInto
  deriving DecidableEq, Repr

namespace Phase

def symbol : Phase → String
  | .keepHigh => "kh"
  | .keepLow => "kl"
  | .reroll => "r"
  | .explode => "!"
  | .explodeInto => "!!"

def all : List Phase := [.keepHigh, .keepLow, .reroll, .explode, .explodeInto]

def ofSymbol? (s : String) : Option Phase := all.find? fun p => p.symbol = s

end Phase

structure Modifier where
  magnitude : Nat
  conditions : List Condition := []

structure Modifiers where
  keepHigh : Option Modifier := none
  keepLow : Option Modifier := none
  reroll : Option Modifier := none
  explode : Option Modifier := none
  explodeInto : Option Modifier := none

namespace Modifiers

def get? (ms : Modifiers) : Phase → Option Modifier
  | .keepHigh => ms.keepHigh
  | .keepLow => ms.keepLow
  | .reroll => ms.reroll
  | .explode => ms.explode
  | .explodeInto => ms.explodeInto

def set (ms : Modifiers) (m : Modifier) : Phase → Modifiers
  | .keepHigh => { ms with keepHigh := some m }
  | .keepLow => { ms with keepLow := some m }
  | .reroll => { ms with reroll := some m }
  | .explode => { ms with explode := some m }
  | .explodeInto => { ms with explodeInto := some m }

theorem get?_set (ms : Modifiers) (m : Modifier) (p q : Phase) :
    (ms.set m p).get? q = if q = p then some m else ms.get? q := by
  cases p <;> cases q <;> rfl

theorem ext_get? {ms ns : Modifiers} (h : ∀ p, ms.get? p = ns.get? p) : ms = ns := by
  cases ms
  cases ns
  have h1 := h .keepHigh
  have h2 := h .keepLow
  have h3 := h .reroll
  have h4 := h .explode
  have h5 := h .explodeInto
  simp only [get?] at h1 h2 h3 h4 h5
  simp [h1, h2, h3, h4, h5]

def toList (ms : Modifiers) : List (Phase × Modifier) :=
  Phase.all.filterMap fun p => (ms.get? p).map fun m => (p, m)

end Modifiers

end DiceTray
