import DiceTray.Proofs.Tray.Sketch
import Mathlib.Data.List.Forall2
import Mathlib.Data.List.Nodup

namespace DiceTray

variable {σ : Type} {r : Roller σ} {t : Token} {k : Sketch} {p q : Pass σ}

def reading (ps : List Pool) (i : Nat) : Option Number := ps[i]?.map Pool.result

theorem reading_of_map_plain {ps qs : List Pool} (h : ps.map Pool.plain = qs.map Pool.plain) :
    reading ps = reading qs := by
  have key : ∀ ps : List Pool, reading ps = fun i => (ps.map Pool.plain)[i]?.map Pool.result := by
    intro ps
    funext i
    simp only [reading, List.getElem?_map, Option.map_map]
    exact congrArg (ps[i]?.map ·) (funext fun pool => (Pool.result_plain pool).symm)
  rw [key ps, key qs, h]

theorem reading_append {ps : List Pool} {i : Nat} (h : i < ps.length) (new : List Pool) :
    reading (ps ++ new) i = reading ps i := by
  simp [reading, List.getElem?_append_left h]

theorem reading_set_self {ps : List Pool} {i : Nat} (h : i < ps.length) (pool : Pool) :
    reading (ps.set i pool) i = some pool.result := by
  simp [reading, h]

theorem reading_set_of_ne {ps : List Pool} {i j : Nat} (h : i ≠ j) (pool : Pool) :
    reading (ps.set i pool) j = reading ps j := by
  simp [reading, List.getElem?_set_ne h]

inductive Stands (ps : List Pool) : Tree → Operand → Prop where
  | pool {i : Nat} (h : i < ps.length) : Stands ps (.leaf i) (.pool i)
  | folded {op : Operator} {left right : Tree} {pool : Pool} (fixed : ∃ n, pool.content = .fixed n)
      (h : (Tree.node op left right).value? (reading ps) = some pool.result) :
      Stands ps (.node op left right) (.folded pool fixed)

theorem Stands.mono {ps qs : List Pool} {e : Tree} {x : Operand} (h : Stands ps e x)
    (hlen : ps.length ≤ qs.length) (hread : ∀ i ∈ e.leaves, reading qs i = reading ps i) :
    Stands qs e x := by
  cases h with
  | pool hi => exact .pool (Nat.lt_of_lt_of_le hi hlen)
  | folded fixed hn => exact .folded fixed ((Tree.value?_congr hread).trans hn)

theorem forall₂_stands_mono {ps qs : List Pool} {es : List Tree} {xs : List Operand}
    (h : List.Forall₂ (Stands ps) es xs) (hlen : ps.length ≤ qs.length)
    (hread : ∀ i ∈ es.flatMap Tree.leaves, reading qs i = reading ps i) :
    List.Forall₂ (Stands qs) es xs := by
  induction h with
  | nil => exact .nil
  | cons hx _ ih =>
      simp only [List.flatMap_cons, List.mem_append] at hread
      exact .cons (hx.mono hlen fun i hi => hread i (.inl hi)) (ih fun i hi => hread i (.inr hi))

namespace Pass

theorem settle_stands {e : Tree} {x : Operand} (h : Stands p.pools e x) :
    e.value? (reading (p.settle r x).2.pools) = some (p.settle r x).1 ∧
      (p.settle r x).2.pools.length = p.pools.length ∧
      ∀ i, i ∉ e.leaves → reading (p.settle r x).2.pools i = reading p.pools i := by
  cases h with
  | folded fixed hn =>
      rw [settle_folded fixed]
      exact ⟨hn, rfl, fun _ _ => rfl⟩
  | @pool i hi =>
      rw [settle_pool (List.getElem?_eq_getElem hi)]
      refine ⟨reading_set_self hi _, List.length_set, fun j hj => reading_set_of_ne ?_ _⟩
      rintro rfl
      exact hj (by simp [Tree.leaves])

theorem stands_settle {e e' : Tree} {x y : Operand} (hx : Stands p.pools e x)
    (hy : Stands p.pools e' y) (hd : e.leaves.Disjoint e'.leaves) :
    Stands (p.settle r x).2.pools e' y := by
  obtain ⟨-, hlen, hread⟩ := settle_stands (r := r) hx
  exact hy.mono (Nat.le_of_eq hlen.symm) fun i hi => hread i fun he => hd he hi

theorem settle_both {e e' : Tree} {x y : Operand} (hx : Stands p.pools e x)
    (hy : Stands p.pools e' y) (hd : e.leaves.Disjoint e'.leaves) :
    let b := p.settle r x
    let a := b.2.settle r y
    e.value? (reading a.2.pools) = some b.1 ∧ e'.value? (reading a.2.pools) = some a.1 ∧
      a.2.pools.length = p.pools.length ∧
      ∀ i, i ∉ e.leaves → i ∉ e'.leaves → reading a.2.pools i = reading p.pools i := by
  intro b a
  obtain ⟨hb, hblen, hbread⟩ := settle_stands (r := r) hx
  obtain ⟨ha, halen, haread⟩ := settle_stands (r := r) (stands_settle hx hy hd)
  refine ⟨?_, ha, halen.trans hblen, fun i he he' => (haread i he').trans (hbread i he)⟩
  rw [← hb]
  exact Tree.value?_congr fun i hi => haread i fun he' => hd hi he'

/-- The walk stands where the sketch of its tokens stands. No pool waits in two places, so rolling
one operand leaves the worth of all others as it is. -/
structure Follows (k : Sketch) (p : Pass σ) : Prop where
  met : p.met = k.met
  room : p.met ≤ p.pools.length
  operands : List.Forall₂ (Stands p.pools) k.operands p.operands
  linear : k.Linear

theorem follows_start (t : Tray) (s : σ) : Follows {} (t.start s) :=
  ⟨rfl, Nat.zero_le _, .nil, Sketch.linear_nil⟩

theorem Follows.index_lt (h : Follows k p) {i : Nat} (hi : i ∈ k.indices) : i < p.pools.length :=
  Nat.lt_of_lt_of_le (h.met ▸ h.linear.lt i hi) h.room

theorem follows_notice (h : Follows k p) (f : Fault) : Follows k (p.notice f) :=
  ⟨h.met, h.room, h.operands, h.linear⟩

theorem follows_of_map_plain (h : Follows k p) (hm : q.met = p.met)
    (ho : q.operands = p.operands) (hp : q.pools.map Pool.plain = p.pools.map Pool.plain) :
    Follows k q := by
  have hlen : p.pools.length = q.pools.length := by
    simpa using congrArg List.length hp.symm
  refine ⟨hm.trans h.met, hm ▸ hlen ▸ h.room, ?_, h.linear⟩
  rw [ho]
  have hread := reading_of_map_plain hp
  exact forall₂_stands_mono h.operands (Nat.le_of_eq hlen) fun i _ => congrFun hread i

theorem map_plain_condition (t : Token) (p : Pass σ) :
    (p.condition t).pools.map Pool.plain = p.pools.map Pool.plain := by
  rw [pools_condition]
  exact map_modify_eq (Pool.plain_judged t) ..

theorem map_plain_attach (word : ModifierWord) (t : Token) (p : Pass σ) :
    (p.attach word t).pools.map Pool.plain = p.pools.map Pool.plain := by
  cases hmet : p.met with
  | zero => rw [pools_attach_of_met_eq_zero hmet]
  | succ i =>
      rw [pools_attach_of_met_eq_succ hmet]
      exact map_modify_eq (Pool.plain_modified word t) ..

theorem follows_attach (h : Follows k p) (word : ModifierWord) (t : Token) :
    Follows k (p.attach word t) := by
  obtain ⟨hm, ho, -⟩ := attach_frame word t p
  exact follows_of_map_plain h hm ho (map_plain_attach word t p)

theorem follows_meet (h : Follows k p) (hq : p.meet r t = .ok q) :
    Follows { met := k.met + 1, operands := .leaf k.met :: k.operands } q := by
  obtain ⟨p', hp', rfl⟩ := exists_of_meet hq
  obtain ⟨hm, ho, hlt, new, hps⟩ := hp'.exists_append h.room
  obtain ⟨-, hoc, -⟩ := condition_frame t p'
  have hread : reading ((p'.condition t).pools) = reading p'.pools :=
    reading_of_map_plain (map_plain_condition t p')
  have hlen : (p'.condition t).pools.length = p'.pools.length := by
    rw [pools_condition, List.length_modify]
  refine ⟨by simp [hm, h.met], ?_, ?_, Sketch.linear_push h.linear⟩
  · simp only [push, hlen, hm]
    exact hlt
  · simp only [push, hoc, ho, hm, h.met]
    refine .cons (.pool (by rw [hlen, ← h.met]; exact hlt)) ?_
    refine forall₂_stands_mono h.operands (by simp [hlen, hps]) fun i hi => ?_
    rw [hread, hps]
    exact reading_append (h.index_lt hi) new

theorem Follows.exists_operands {right left : Tree} {rest : List Tree} (h : Follows k p)
    (hk : k.operands = right :: left :: rest) :
    ∃ x y zs, p.operands = x :: y :: zs ∧ Stands p.pools right x ∧ Stands p.pools left y ∧
      List.Forall₂ (Stands p.pools) rest zs ∧ right.leaves.Disjoint left.leaves ∧
      ∀ i ∈ rest.flatMap Tree.leaves, i ∉ right.leaves ∧ i ∉ left.leaves := by
  have hops := h.operands
  rw [hk] at hops
  obtain ⟨x, xs, hx, hxs, hpo⟩ := List.forall₂_cons_left_iff.mp hops
  obtain ⟨y, zs, hy, hzs, rfl⟩ := List.forall₂_cons_left_iff.mp hxs
  have hlin := h.linear.nodup
  simp only [Sketch.indices, hk, List.flatMap_cons] at hlin
  obtain ⟨-, hlr, hright⟩ := List.nodup_append'.mp hlin
  obtain ⟨-, -, hleft⟩ := List.nodup_append'.mp hlr
  refine ⟨x, y, zs, hpo, hx, hy, hzs, ?_, fun i hi => ⟨?_, ?_⟩⟩
  · exact fun i hr hl => hright hr (List.mem_append_left _ hl)
  · exact fun hr => hright hr (List.mem_append_right _ hi)
  · exact fun hl => hleft hl hi

theorem follows_combine {op : Operator} {right left : Tree} {rest : List Tree}
    (h : Follows k p) (hk : k.operands = right :: left :: rest) (text : String) :
    Follows { k with operands := .node op left right :: rest } (p.combine r op text) := by
  obtain ⟨x, y, zs, hpo, hx, hy, hzs, hd, hrest⟩ := h.exists_operands hk
  have hm := (combine_frame r op text hpo).1
  rw [combine_of_operands hpo] at hm ⊢
  obtain ⟨hb, ha, hlen, hread⟩ := settle_both (r := r) (p := { p with operands := zs }) hx hy hd
  obtain ⟨-, hbo, -⟩ := settle_frame r x { p with operands := zs }
  obtain ⟨-, hao, -⟩ := settle_frame r y ({ p with operands := zs }.settle r x).2
  refine ⟨hm.trans h.met, ?_, ?_, Sketch.linear_fold h.linear hk⟩
  · rw [hm]
    exact Nat.le_trans h.room (Nat.le_of_eq hlen.symm)
  · simp only [push, hao, hbo]
    refine .cons (.folded _ (Tree.value?_node ha hb)) ?_
    refine forall₂_stands_mono hzs (Nat.le_of_eq hlen.symm) fun i hi => ?_
    exact hread i (hrest i hi).1 (hrest i hi).2

theorem follows_step (h : Follows k p) (hq : p.step r t = .ok q) : Follows (k.step t) q := by
  cases t.role with
  | pool ht =>
      rw [step_of_isPool ht] at hq
      rw [Sketch.step_of_isPool ht]
      exact follows_meet h hq
  | modifier word ht =>
      rw [step_of_modifier ht] at hq
      cases hq
      rw [Sketch.step_of_modifier ht]
      exact follows_attach h word t
  | unknown f ht =>
      rw [step_of_unknown ht] at hq
      cases hq
      rw [Sketch.step_of_unknown ht]
      exact follows_notice h f
  | operator op ht =>
      rw [step_of_operator ht] at hq
      cases hq
      match hk : k.operands with
      | right :: left :: rest =>
          rw [Sketch.step_of_operator ht hk]
          exact follows_combine h hk t.text
      | [] | [_] =>
          have hlt : p.operands.length < 2 := by rw [← h.operands.length_eq, hk]; simp
          obtain ⟨f, hf⟩ := combine_of_length_lt r op t.text hlt
          rw [Sketch.step_of_length_lt (Token.isPool_of_operator ht) (by simp [hk]), hf]
          exact follows_notice h f

theorem follows_run {ts : List Token} (h : Follows k p) (hq : p.run r ts = (none, q)) :
    Follows (k.run ts) q := by
  induction ts generalizing k p with
  | nil =>
      cases hq
      exact h
  | cons t ts ih =>
      cases hs : p.step r t with
      | error f => simp [run, hs] at hq
      | ok p' =>
          rw [run_cons_ok hs] at hq
          exact ih (follows_step h hs) hq

end Pass

end DiceTray
