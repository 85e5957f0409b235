import DiceTray.Proofs.Tray.Deed
import DiceTray.Proofs.Tray.Follows

namespace DiceTray

variable {σ : Type} {r : Roller σ} {t : Token} {k : Sketch} {p q : Pass σ}

def Tree.bare? : Tree → Option Nat
  | .leaf i => some i
  | .node .. => none

namespace Sketch

def rolledBy (k : Sketch) (t : Token) : List Nat :=
  match t.operator?, k.operands with
  | some (.ok _), right :: left :: _ => right.bare?.toList ++ left.bare?.toList
  | _, _ => []

def rolls (k : Sketch) : List Token → List Nat
  | [] => (k.operands.head?.bind Tree.bare?).toList
  | t :: ts => k.rolledBy t ++ (k.step t).rolls ts

def deedsOf (k : Sketch) (t : Token) : List Deed :=
  match t.kind with
  | .modifier word =>
      match k.met with
      | 0 => []
      | index + 1 => [.attach index word t]
  | kind => if kind.isPool then [.meet k.met t] else (k.rolledBy t).map .roll

def deeds (k : Sketch) : List Token → List Deed
  | [] => (k.operands.head?.bind Tree.bare?).toList.map .roll
  | t :: ts => k.deedsOf t ++ (k.step t).deeds ts

def bare (k : Sketch) : List Nat := k.operands.filterMap Tree.bare?

theorem filterMap_bare_sublist (es : List Tree) :
    (es.filterMap Tree.bare?).Sublist (es.flatMap Tree.leaves) := by
  induction es with
  | nil => exact .slnil
  | cons e es ih =>
      cases e with
      | leaf i => exact ih.cons_cons i
      | node op left right => exact ih.trans (List.sublist_append_right _ _)

theorem filterMap_bare_cons (e : Tree) (es : List Tree) :
    (e :: es).filterMap Tree.bare? = e.bare?.toList ++ es.filterMap Tree.bare? := by
  cases e <;> rfl

theorem lt_met_of_mem_bare (h : k.Linear) {i : Nat} (hi : i ∈ k.bare) : i < k.met :=
  h.lt i ((filterMap_bare_sublist _).mem hi)

theorem nodup_bare (h : k.Linear) : k.bare.Nodup := h.nodup.sublist (filterMap_bare_sublist _)

theorem rolledBy_of_operator {op : Operator} {right left : Tree} {rest : List Tree}
    (h : t.operator? = some (.ok op)) (hk : k.operands = right :: left :: rest) :
    k.rolledBy t = right.bare?.toList ++ left.bare?.toList := by
  simp [rolledBy, h, hk]

theorem rolledBy_of_length_lt (hk : k.operands.length < 2) : k.rolledBy t = [] := by
  unfold rolledBy
  split
  case h_1 heq => exact absurd hk (by simp [heq])
  case h_2 => rfl

theorem rolledBy_of_unknown {f : Fault} (h : t.operator? = some (.error f)) :
    k.rolledBy t = [] := by
  simp [rolledBy, h]

theorem rolledBy_of_operator?_none (h : t.operator? = none) : k.rolledBy t = [] := by
  simp [rolledBy, h]

theorem met_step_of_not_isPool (h : t.kind.isPool = false) : (k.step t).met = k.met := by
  unfold step
  rw [if_neg (by simp [h])]
  split <;> rfl

theorem met_step_of_isPool (h : t.kind.isPool = true) : (k.step t).met = k.met + 1 := by
  rw [step_of_isPool h]

theorem bare_step_of_isPool (h : t.kind.isPool = true) : (k.step t).bare = k.met :: k.bare := by
  rw [step_of_isPool h]
  rfl

theorem bare_eq_append (h : t.kind.isPool = false) :
    k.bare = k.rolledBy t ++ (k.step t).bare := by
  cases t.role with
  | pool ht => rw [ht] at h; cases h
  | modifier word ht =>
      rw [step_of_modifier ht, rolledBy_of_operator?_none (Token.operator?_of_modifier ht)]
      rfl
  | unknown f ht => rw [step_of_unknown ht, rolledBy_of_unknown ht]; rfl
  | operator op ht =>
      match hk : k.operands with
      | right :: left :: rest =>
          rw [rolledBy_of_operator ht hk, step_of_operator ht hk]
          simp only [bare, hk, filterMap_bare_cons, List.append_assoc]
          rfl
      | [] | [_] =>
          have hlt : k.operands.length < 2 := by simp [hk]
          rw [rolledBy_of_length_lt hlt, step_of_length_lt h hlt]
          rfl

theorem rolls_linear (h : k.Linear) (ts : List Token) :
    (k.rolls ts).Nodup ∧ ∀ i ∈ k.rolls ts, i ∈ k.bare ∨ k.met ≤ i := by
  induction ts generalizing k with
  | nil =>
      match hk : k.operands with
      | [] | .node .. :: _ => simp [rolls, hk, Tree.bare?]
      | .leaf i :: _ => simp [rolls, bare, hk, Tree.bare?]
  | cons t ts ih =>
      obtain ⟨hnodup, hmem⟩ := ih (linear_step h t)
      cases ht : t.kind.isPool with
      | true =>
          rw [step_of_isPool ht] at hnodup hmem
          rw [rolls, rolledBy_of_operator?_none (Token.operator?_of_isPool ht), step_of_isPool ht]
          refine ⟨hnodup, fun i hi => ?_⟩
          rcases hmem i hi with hb | hge
          · rcases List.mem_cons.mp hb with rfl | hb
            · exact .inr (Nat.le_refl _)
            · exact .inl hb
          · exact .inr (Nat.le_of_succ_le hge)
      | false =>
          rw [met_step_of_not_isPool ht] at hmem
          have hsplit := bare_eq_append (k := k) ht
          have hbare := nodup_bare h
          rw [hsplit] at hbare
          obtain ⟨hrolled, -, hdisjoint⟩ := List.nodup_append'.mp hbare
          constructor
          · refine List.nodup_append'.mpr ⟨hrolled, hnodup, fun i hi hi' => ?_⟩
            rcases hmem i hi' with hb | hge
            · exact hdisjoint hi hb
            · have := lt_met_of_mem_bare h (hsplit ▸ List.mem_append_left _ hi)
              omega
          · intro i hi
            rw [hsplit]
            rcases List.mem_append.mp hi with hi | hi
            · exact .inl (List.mem_append_left _ hi)
            · exact (hmem i hi).imp (List.mem_append_right _) id

theorem filterMap_rolled_map (is : List Nat) :
    (is.map Deed.roll).filterMap Deed.rolled? = is := by
  induction is with
  | nil => rfl
  | cons i is ih => exact congrArg (i :: ·) ih

theorem deedsOf_of_isPool (h : t.kind.isPool = true) : k.deedsOf t = [.meet k.met t] := by
  rcases t with ⟨kind, text, data, conditions⟩
  cases kind <;> first | rfl | cases h

theorem deedsOf_of_modifier {word : ModifierWord} (h : t.kind = .modifier word) :
    k.deedsOf t =
      match k.met with
      | 0 => []
      | index + 1 => [.attach index word t] := by
  simp only [deedsOf, h]

theorem deedsOf_of_operator? {x : Except Fault Operator} (h : t.operator? = some x) :
    k.deedsOf t = (k.rolledBy t).map .roll := by
  rcases t with ⟨kind, text, data, conditions⟩
  cases kind <;> first | rfl | cases h

theorem filterMap_rolled_deedsOf (k : Sketch) (t : Token) :
    (k.deedsOf t).filterMap Deed.rolled? = k.rolledBy t := by
  cases t.role with
  | pool ht =>
      rw [deedsOf_of_isPool ht, rolledBy_of_operator?_none (Token.operator?_of_isPool ht)]
      rfl
  | modifier word ht =>
      rw [deedsOf_of_modifier ht, rolledBy_of_operator?_none (Token.operator?_of_modifier ht)]
      cases k.met <;> rfl
  | operator op ht => rw [deedsOf_of_operator? ht, filterMap_rolled_map]
  | unknown f ht => rw [deedsOf_of_operator? ht, filterMap_rolled_map]

theorem filterMap_rolled_deeds (k : Sketch) (ts : List Token) :
    (k.deeds ts).filterMap Deed.rolled? = k.rolls ts := by
  induction ts generalizing k with
  | nil => exact filterMap_rolled_map _
  | cons t ts ih => rw [deeds, rolls, List.filterMap_append, filterMap_rolled_deedsOf, ih]

end Sketch

namespace Pass

def table (p : Pass σ) : List Pool × σ := (p.pools, p.source)

theorem settle_performs {e : Tree} {x : Operand} (h : Stands p.pools e x) :
    Deed.performAll r (e.bare?.toList.map .roll) p.table = some (p.settle r x).2.table := by
  cases h with
  | folded fixed _ =>
      rw [settle_folded fixed]
      rfl
  | @pool i hi =>
      have hpool := List.getElem?_eq_getElem hi
      rw [settle_pool hpool]
      simp [Tree.bare?, Deed.performAll, Deed.perform, table, hpool]

theorem meet_performs (h : Follows k p) (hq : p.meet r t = .ok q) :
    Deed.performAll r [.meet k.met t] p.table = some q.table := by
  obtain ⟨p', hp', rfl⟩ := exists_of_meet hq
  have hs : (p'.condition t).source = p'.source := (condition_frame t p').2.2
  simp only [Deed.performAll, Deed.perform, table, push, pools_condition, hs, ← h.met]
  cases hp' with
  | kept hlt e =>
      subst e
      have hpool := List.getElem?_eq_getElem hlt
      simp [hpool, ← set_eq_modify_of_getElem? _ hpool]
  | created hge pool s hc e =>
      subst e
      have hlen : p.met = p.pools.length := Nat.le_antisymm h.room hge
      have hpool : (p.pools ++ [pool])[p.met]? = some pool := by simp [hlen]
      simp only [← set_eq_modify_of_getElem? _ hpool]
      simp [hlen, hc]

theorem attach_performs (h : Follows k p) {word : ModifierWord} (ht : t.kind = .modifier word) :
    Deed.performAll r (k.deedsOf t) p.table = some (p.attach word t).table := by
  have hs : (p.attach word t).source = p.source := (attach_frame word t p).2.2
  rw [Sketch.deedsOf_of_modifier ht, ← h.met]
  cases hm : p.met with
  | zero => simp [Deed.performAll, table, hs, pools_attach_of_met_eq_zero hm]
  | succ i =>
      have hi : i < p.pools.length := by have := h.room; omega
      have hpool := List.getElem?_eq_getElem hi
      simp [Deed.performAll, Deed.perform, table, hs, pools_attach_of_met_eq_succ hm, hpool,
        ← set_eq_modify_of_getElem? _ hpool]

theorem combine_performs {op : Operator} {right left : Tree} {rest : List Tree}
    (h : Follows k p) (hk : k.operands = right :: left :: rest) (text : String) :
    Deed.performAll r ((right.bare?.toList ++ left.bare?.toList).map .roll) p.table
      = some (p.combine r op text).table := by
  obtain ⟨x, y, zs, hpo, hx, hy, -, hd, -⟩ := h.exists_operands hk
  have hb := settle_performs (r := r) (p := { p with operands := zs }) hx
  have hleft := stands_settle (r := r) (p := { p with operands := zs }) hx hy hd
  have ha := settle_performs (r := r) hleft
  have hstart : p.table = Pass.table { p with operands := zs } := rfl
  rw [combine_of_operands hpo, List.map_append, Deed.performAll_append, hstart, hb]
  exact ha

theorem step_performs (h : Follows k p) (hq : p.step r t = .ok q) :
    Deed.performAll r (k.deedsOf t) p.table = some q.table := by
  cases t.role with
  | pool ht =>
      rw [step_of_isPool ht] at hq
      rw [Sketch.deedsOf_of_isPool ht]
      exact meet_performs h hq
  | modifier word ht =>
      rw [step_of_modifier ht] at hq
      cases hq
      exact attach_performs h ht
  | unknown f ht =>
      rw [step_of_unknown ht] at hq
      cases hq
      rw [Sketch.deedsOf_of_operator? ht, Sketch.rolledBy_of_unknown ht]
      rfl
  | operator op ht =>
      rw [step_of_operator ht] at hq
      cases hq
      rw [Sketch.deedsOf_of_operator? ht]
      match hk : k.operands with
      | right :: left :: rest =>
          rw [Sketch.rolledBy_of_operator ht hk]
          exact combine_performs h hk t.text
      | [] | [_] =>
          have hlt : p.operands.length < 2 := by rw [← h.operands.length_eq, hk]; simp
          obtain ⟨f, hf⟩ := combine_of_length_lt r op t.text hlt
          rw [Sketch.rolledBy_of_length_lt (by simp [hk]), hf]
          rfl

theorem run_performs {ts : List Token} {x : Operand} {rest : List Operand} (h : Follows k p)
    (hq : p.run r ts = (none, q)) (hx : q.operands = x :: rest) :
    Deed.performAll r (k.deeds ts) p.table = some (q.closed.settle r x).2.table := by
  induction ts generalizing k p with
  | nil =>
      cases hq
      have hops := h.operands
      rw [hx] at hops
      obtain ⟨e, es, hex, -, hke⟩ := List.forall₂_cons_right_iff.mp hops
      obtain ⟨hcp, hcs, -⟩ := closed_frame q
      rw [← hcp] at hex
      have htable : q.table = q.closed.table := by simp only [table, hcp, hcs]
      rw [htable, Sketch.deeds, hke]
      exact settle_performs hex
  | cons t ts ih =>
      cases hs : p.step r t with
      | error f => simp [run, hs] at hq
      | ok p' =>
          rw [run_cons_ok hs] at hq
          rw [Sketch.deeds, Deed.performAll_append, step_performs h hs]
          exact ih (follows_step h hs) hq

end Pass

namespace Tray

theorem rolls_of_roll_ok {tokens : List Token} {t : Tray} {s : σ} {n : Number}
    (h : (t.roll r tokens s).1 = .ok n) :
    let after := t.roll r tokens s
    let deeds := Sketch.deeds {} tokens
    let rolls := Sketch.rolls {} tokens
    rolls.Nodup ∧ deeds.filterMap Deed.rolled? = rolls ∧
      Deed.performAll r deeds (t.pools, s) = some (after.2.1.pools, after.2.2) ∧
      ∀ i pool, after.2.1.pools[i]? = some pool → i ∉ rolls →
        (∀ old, t.pools[i]? = some old → pool.hand = old.hand) ∧
        (t.pools[i]? = none →
          ∃ pre u post ps v drawn w, deeds = pre ++ .meet i u :: post ∧
            Deed.performAll r pre (t.pools, s) = some (ps, v) ∧
            Pass.create r u v = .ok (drawn, w) ∧ pool.hand = drawn.hand) := by
  intro after deeds rolls
  obtain ⟨p, x, rest, hrun, hx, -, hpools, -, hsource⟩ := exists_of_roll_ok h
  have hlisted : deeds.filterMap Deed.rolled? = rolls := Sketch.filterMap_rolled_deeds {} tokens
  have hperform : Deed.performAll r deeds (t.pools, s) = some (after.2.1.pools, after.2.2) := by
    rw [hpools, hsource]
    exact Pass.run_performs (Pass.follows_start t s) hrun hx
  refine ⟨(Sketch.rolls_linear Sketch.linear_nil tokens).1, hlisted, hperform, ?_⟩
  intro i pool hpool hi
  rw [← hlisted] at hi
  constructor
  · intro old hold
    obtain ⟨pool', hpool', hhand⟩ := Deed.performAll_frame hperform hi hold
    rw [hpool, Option.some.injEq] at hpool'
    exact hpool' ▸ hhand
  · intro hnone
    exact Deed.performAll_creates hperform hi hnone hpool

theorem rolls_of_roll_ok_leftover :
    let tokens : List Token := [.dice "2d6", .stunt "3d6", .stunt "3d6", .math .add]
    let after := ({} : Tray).roll (Roller.replay [1, 2, 3, 4, 5, 6]) tokens 0
    after.1 = .ok (.int 21) ∧ Sketch.rolls {} tokens = [2, 1] ∧
      ∀ pool, after.2.1.pools[0]? = some pool →
        ∃ pre u post ps v drawn w, Sketch.deeds {} tokens = pre ++ .meet 0 u :: post ∧
          Deed.performAll (Roller.replay [1, 2, 3, 4, 5, 6]) pre ([], 0) = some (ps, v) ∧
          Pass.create (Roller.replay [1, 2, 3, 4, 5, 6]) u v = .ok (drawn, w) ∧
          pool.hand = drawn.hand := by
  intro tokens after
  have h : after.1 = .ok (.int 21) := by rfl
  have hrolls : Sketch.rolls {} tokens = [2, 1] := by rfl
  obtain ⟨-, -, -, hrest⟩ := rolls_of_roll_ok h
  refine ⟨h, hrolls, fun pool hpool => ?_⟩
  exact (hrest 0 pool hpool (by rw [hrolls]; decide)).2 rfl

end Tray

end DiceTray
