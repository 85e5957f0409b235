import DiceTray.Proofs.Tray.Walk

namespace DiceTray

inductive Tree where
  | leaf (index : Nat)
  | node (op : Operator) (left right : Tree)
  deriving DecidableEq, Repr

namespace Tree

def value? (reading : Nat → Option Number) : Tree → Option Number
  | .leaf i => reading i
  | .node op left right =>
      (left.value? reading).bind fun a => (right.value? reading).map fun b => op.apply a b

def leaves : Tree → List Nat
  | .leaf i => [i]
  | .node _ left right => left.leaves ++ right.leaves

theorem value?_congr {f g : Nat → Option Number} {e : Tree} (h : ∀ i ∈ e.leaves, f i = g i) :
    e.value? f = e.value? g := by
  induction e with
  | leaf i => exact h i (by simp [leaves])
  | node op left right ihl ihr =>
      have hl := ihl fun i hi => h i (by simp [leaves, hi])
      have hr := ihr fun i hi => h i (by simp [leaves, hi])
      simp only [value?, hl, hr]

theorem value?_node {f : Nat → Option Number} {op : Operator} {left right : Tree} {a b : Number}
    (ha : left.value? f = some a) (hb : right.value? f = some b) :
    (node op left right).value? f = some (op.apply a b) := by
  simp [value?, ha, hb]

end Tree

structure Sketch where
  met : Nat := 0
  operands : List Tree := []

namespace Sketch

def step (k : Sketch) (t : Token) : Sketch :=
  if t.kind.isPool then { met := k.met + 1, operands := .leaf k.met :: k.operands }
  else
    match t.operator?, k.operands with
    | some (.ok op), right :: left :: rest => { k with operands := .node op left right :: rest }
    | _, _ => k

def run (k : Sketch) (ts : List Token) : Sketch := ts.foldl step k

def ofTokens (ts : List Token) : Sketch := run {} ts

theorem run_append (k : Sketch) (ts us : List Token) : k.run (ts ++ us) = (k.run ts).run us :=
  List.foldl_append

theorem step_of_isPool {k : Sketch} {t : Token} (h : t.kind.isPool = true) :
    k.step t = { met := k.met + 1, operands := .leaf k.met :: k.operands } := by
  simp [step, h]

theorem step_of_modifier {k : Sketch} {t : Token} {word : ModifierWord}
    (h : t.kind = .modifier word) : k.step t = k := by
  simp [step, Token.isPool_of_modifier h, Token.operator?_of_modifier h]

theorem step_of_operator {k : Sketch} {t : Token} {op : Operator} {right left : Tree}
    {rest : List Tree} (h : t.operator? = some (.ok op)) (hk : k.operands = right :: left :: rest) :
    k.step t = { k with operands := .node op left right :: rest } := by
  simp [step, Token.isPool_of_operator h, h, hk]

theorem step_of_unknown {k : Sketch} {t : Token} {f : Fault}
    (h : t.operator? = some (.error f)) : k.step t = k := by
  simp [step, Token.isPool_of_operator h, h]

theorem step_of_length_lt {k : Sketch} {t : Token} (ht : t.kind.isPool = false)
    (hk : k.operands.length < 2) : k.step t = k := by
  unfold step
  rw [if_neg (by simp [ht])]
  split
  case h_1 heq => exact absurd hk (by simp [heq])
  case h_2 => rfl

def indices (k : Sketch) : List Nat := k.operands.flatMap Tree.leaves

structure Linear (k : Sketch) : Prop where
  nodup : k.indices.Nodup
  lt : ∀ i ∈ k.indices, i < k.met

theorem linear_nil : Linear {} := ⟨by simp [indices], by simp [indices]⟩

theorem linear_of_perm {k k' : Sketch} (h : k.Linear) (hm : k'.met = k.met)
    (hp : k'.indices.Perm k.indices) : k'.Linear :=
  ⟨hp.nodup_iff.mpr h.nodup, fun i hi => hm ▸ h.lt i (hp.mem_iff.mp hi)⟩

theorem linear_push {k : Sketch} (h : k.Linear) :
    Linear { met := k.met + 1, operands := .leaf k.met :: k.operands } := by
  constructor
  · have hfresh : k.met ∉ k.indices := fun hi => Nat.lt_irrefl _ (h.lt _ hi)
    exact List.nodup_cons.mpr ⟨hfresh, h.nodup⟩
  · intro i hi
    rcases List.mem_cons.mp hi with rfl | hi
    · exact Nat.lt_succ_self _
    · exact Nat.lt_succ_of_lt (h.lt i hi)

theorem linear_fold {k : Sketch} {op : Operator} {right left : Tree} {rest : List Tree}
    (h : k.Linear) (hk : k.operands = right :: left :: rest) :
    Linear { k with operands := .node op left right :: rest } := by
  refine linear_of_perm h rfl ?_
  simp only [indices, hk, List.flatMap_cons, Tree.leaves, ← List.append_assoc]
  exact List.perm_append_comm.append_right _

theorem linear_step {k : Sketch} (h : k.Linear) (t : Token) : (k.step t).Linear := by
  cases t.role with
  | pool ht => rw [step_of_isPool ht]; exact linear_push h
  | modifier word ht => rw [step_of_modifier ht]; exact h
  | unknown f ht => rw [step_of_unknown ht]; exact h
  | operator op ht =>
      match hk : k.operands with
      | right :: left :: rest => rw [step_of_operator ht hk]; exact linear_fold h hk
      | [] | [_] => rw [step_of_length_lt (Token.isPool_of_operator ht) (by simp [hk])]; exact h

end Sketch

end DiceTray
