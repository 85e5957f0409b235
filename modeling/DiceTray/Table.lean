import DiceTray.Tray.Pass

namespace DiceTray

structure Table where
  expression : String
  tokens : List Token
  tray : Tray := {}

namespace Table

variable {σ : Type}

def walk (r : Roller σ) (taken : List Token) (b : Table) (s : σ) :
    Except Fault Number × Table × σ :=
  let (result, tray, s) := b.tray.walk r taken s
  (result, { b with tray }, s)

/-- The tokens are put back before anything is made of the result, so also when there is none. -/
def roll (r : Roller σ) (b : Table) (s : σ) : Except Fault Number × Table × σ :=
  let taken := b.tokens
  let (result, b, s) := { b with tokens := [] }.walk r taken s
  let b := { b with tokens := taken }
  (result, { b with tray := b.tray.conclude result }, s)

theorem roll_eq (r : Roller σ) (b : Table) (s : σ) :
    b.roll r s =
      let rolled := b.tray.roll r b.tokens s
      (rolled.1, { b with tray := rolled.2.1 }, rolled.2.2) := rfl

def restore (shown : Snapshot) (b : Table) : Table := { b with tray := b.tray.restore shown }

end Table

end DiceTray
