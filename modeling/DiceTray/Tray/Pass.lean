import DiceTray.Token
import DiceTray.Tray

namespace DiceTray

inductive Operand where
  | pool (index : Nat)
  | folded (pool : Pool) (fixed : ∃ n, pool.content = .fixed n)

def Operand.literal (value : Number) (source : String) : Operand :=
  .folded (Pool.literal value source) ⟨value, rfl⟩

structure Pass (σ : Type) where
  source : σ
  pools : List Pool
  met : Nat := 0
  operands : List Operand := []
  stuntPoints : Option Int64 := none
  notices : List Fault := []

namespace Pass

variable {σ : Type}

def notice (f : Fault) (p : Pass σ) : Pass σ := { p with notices := p.notices ++ [f] }

def keep (index : Nat) (change : Except Fault Pool) (p : Pass σ) : Pass σ :=
  match change with
  | .ok pool => { p with pools := p.pools.set index pool }
  | .error f => p.notice f

def create (r : Roller σ) (t : Token) (s : σ) : Except Fault (Pool × σ) :=
  match t.kind with
  | .stunt => .ok (Pool.stunt r t.text s)
  | _ => Pool.read r t.text t.data s

def provide (r : Roller σ) (t : Token) (p : Pass σ) : Except Fault (Pass σ) :=
  if p.met < p.pools.length then .ok p
  else (create r t p.source).map fun (pool, s) => { p with pools := p.pools ++ [pool], source := s }

def condition (t : Token) (p : Pass σ) : Pass σ :=
  match t.conditions, p.pools[p.met]? with
  | _ :: _, some pool => p.keep p.met (pool.setConditions t.conditions)
  | _, _ => p

def push (x : Operand) (p : Pass σ) : Pass σ := { p with operands := x :: p.operands }

def meet (r : Roller σ) (t : Token) (p : Pass σ) : Except Fault (Pass σ) :=
  (p.provide r t).map fun p =>
    let p := p.condition t
    { p.push (.pool p.met) with met := p.met + 1 }

def latest? (p : Pass σ) : Option (Nat × Pool) :=
  match p.met with
  | 0 => none
  | index + 1 => p.pools[index]?.map fun pool => (index, pool)

def size (pool : Pool) : Nat :=
  match pool.dice? with
  | some d => d.count
  | none => 0

/-- A modifier goes to the pool that was met last, whatever operators came in between. -/
def attach (word : ModifierWord) (t : Token) (p : Pass σ) : Pass σ :=
  match p.latest? with
  | none => p.notice (.malformed (.modifiesNothing t.text))
  | some (index, pool) =>
      let (phase, m) := word.modifier t (size pool)
      p.keep index (pool.setModifier phase m)

def rollPool (r : Roller σ) (pool : Pool) (p : Pass σ) : Pool × Pass σ :=
  let (_, pool, s) := pool.roll r p.source
  (pool, { p with source := s, stuntPoints := pool.stuntPoints? <|> p.stuntPoints })

def settle (r : Roller σ) (x : Operand) (p : Pass σ) : Number × Pass σ :=
  match x with
  | .folded pool _ =>
      let (pool, p) := p.rollPool r pool
      (pool.result, p)
  | .pool index =>
      match p.pools[index]? with
      | none => (.zero, p)
      | some pool =>
          let (pool, p) := p.rollPool r pool
          (pool.result, { p with pools := p.pools.set index pool })

def combine (r : Roller σ) (op : Operator) (text : String) (p : Pass σ) : Pass σ :=
  match p.operands with
  | [] => p.notice (.malformed (.noOperands op))
  | [_] => p.notice (.malformed (.singleOperand op))
  | right :: left :: rest =>
      let (b, p) := { p with operands := rest }.settle r right
      let (a, p) := p.settle r left
      p.push (.literal (op.apply a b) text)

def step (r : Roller σ) (t : Token) (p : Pass σ) : Except Fault (Pass σ) :=
  match t.kind with
  | .dice => p.meet r t
  | .stunt => p.meet r t
  | .modifier word => .ok (p.attach word t)
  | .operator op => .ok (p.combine r op t.text)
  | .math =>
      match Operator.read t.data with
      | .ok op => .ok (p.combine r op t.text)
      | .error f => .ok (p.notice f)

def run (r : Roller σ) : List Token → Pass σ → Option Fault × Pass σ
  | [], p => (none, p)
  | t :: ts, p =>
      match p.step r t with
      | .ok p => run r ts p
      | .error f => (some f, p)

def finish (r : Roller σ) (p : Pass σ) : Except Fault Number × Pass σ :=
  match p.operands with
  | [] => (.error (.malformed .nothingToRoll), p)
  | [x] =>
      let (n, p) := p.settle r x
      (.ok n, p)
  | x :: _ :: _ =>
      let (n, p) := (p.notice (.malformed (.valuesLeft p.operands.length))).settle r x
      (.ok n, p)

end Pass

namespace Tray

variable {σ : Type}

def passResult (r : Roller σ) (tokens : List Token) (p : Pass σ) : Except Fault Number × Pass σ :=
  match p.run r tokens with
  | (some f, p) => (.error f, p)
  | (none, p) => p.finish r

def left (p : Pass σ) (t : Tray) : Tray :=
  { t with pools := p.pools, result := none, stuntPoints := p.stuntPoints, notices := p.notices }

def start (t : Tray) (s : σ) : Pass σ := { source := s, pools := t.pools }

def walk (r : Roller σ) (tokens : List Token) (t : Tray) (s : σ) :
    Except Fault Number × Tray × σ :=
  let (result, p) := passResult r tokens (t.start s)
  (result, t.left p, p.source)

def conclude (result : Except Fault Number) (t : Tray) : Tray :=
  match result with
  | .ok n => { t with result := some n, restored := none }
  | .error _ => t

def roll (r : Roller σ) (tokens : List Token) (t : Tray) (s : σ) :
    Except Fault Number × Tray × σ :=
  let (result, t, s) := t.walk r tokens s
  (result, t.conclude result, s)

end Tray

def evaluate {σ : Type} (r : Roller σ) (tokens : List Token) (s : σ) :
    Except Fault (Number × Tray × σ) :=
  match Tray.roll r tokens {} s with
  | (.ok n, t, s) => .ok (n, t, s)
  | (.error f, _, _) => .error f

end DiceTray
