import DiceTray.Proofs.Tray.Alike
import DiceTray.Proofs.Tray.Rolls

namespace DiceTray

variable {σ : Type} {r : Roller σ} {t : Token} {k : Sketch} {p q : Pass σ} {spent : List Nat}

theorem isSome_getLast?_filterMap {α β : Type} {f : α → Option β} {l : List α} :
    (l.filterMap f).getLast?.isSome = true ↔ ∃ a ∈ l, (f a).isSome = true := by
  rw [List.getLast?_isSome, Ne, List.filterMap_eq_nil_iff]
  simp [Option.isSome_iff_ne_none]

theorem Hand.listText_cons (text : List Char) (texts : List (List Char)) :
    ∃ c tail, (c = ',' ∨ c = ']') ∧ listText (text :: texts) = '[' :: (text ++ c :: tail) := by
  cases texts with
  | nil => exact ⟨']', [], .inr rfl, by simp [listText]⟩
  | cons next texts =>
      refine ⟨',', ' ' :: ([',', ' '].intercalate (next :: texts) ++ [']']), .inl rfl, ?_⟩
      simp only [listText, List.intercalate_cons_cons, List.append_assoc]
      rfl

theorem Marks.chars_append_ne (ms : Marks) {c : Char} (hc : c = ',' ∨ c = ']')
    (tail tail' : List Char) : ms.chars ++ c :: tail ≠ 'S' :: tail' := by
  intro h
  rcases ms with ⟨_ | ⟨m, ms⟩⟩
  · obtain rfl : c = 'S' := (List.cons.inj h).1
    rcases hc with hc | hc <;> cases hc
  · have hm : m.symbol = 'S' := (List.cons.inj h).1
    cases m <;> cases hm

namespace Pool

theorem stuntPoints?_plain (p : Pool) : p.plain.stuntPoints? = p.stuntPoints? := by
  rcases p with ⟨source, value | d | d⟩ <;> rfl

def ShowsStunt (p : Pool) : Prop :=
  ∃ d die rest tail, p.content = .stunt d ∧ d.hand = die :: rest ∧
    p.chars = '[' :: (die.valueChars ++ 'S' :: tail)

theorem exists_stuntChars_iff {die : Die} {rest : Hand} :
    (∃ tail, stuntChars (die :: rest) = '[' :: (die.valueChars ++ 'S' :: tail)) ↔
      doubles (die :: rest) = true := by
  cases hdoubles : doubles (die :: rest) with
  | true =>
      refine iff_of_true ?_ rfl
      obtain ⟨c, tail, -, htext⟩ :=
        Hand.listText_cons (die.valueChars ++ ['S']) (rest.map Die.chars)
      refine ⟨c :: tail, ?_⟩
      rw [stuntChars, if_pos hdoubles, htext, List.append_assoc]
      rfl
  | false =>
      refine iff_of_false ?_ nofun
      rintro ⟨tail', hshown⟩
      obtain ⟨c, tail, hc, htext⟩ := Hand.listText_cons die.chars (rest.map Die.chars)
      have hplain : Hand.chars (die :: rest) = '[' :: (die.chars ++ c :: tail) := htext
      rw [stuntChars, if_neg (by simp [hdoubles]), hplain, Die.chars, List.append_assoc] at hshown
      exact die.marks.chars_append_ne hc tail tail'
        (List.append_cancel_left (List.cons.inj hshown).2)

theorem showsStunt_iff (p : Pool) : p.ShowsStunt ↔ p.stuntPoints?.isSome = true := by
  rcases p with ⟨source, value | d | d⟩
  · exact iff_of_false nofun nofun
  · exact iff_of_false nofun nofun
  · change _ ↔ (handPoints? d.hand).isSome = true
    cases hhand : d.hand with
    | nil =>
        refine iff_of_false ?_ (by simp [handPoints?])
        rintro ⟨d, die, rest, tail, hd, hcons, -⟩
        cases hd
        cases hhand.symm.trans hcons
    | cons die rest =>
        have hchars : chars ⟨source, .stunt d⟩ = stuntChars (die :: rest) :=
          congrArg stuntChars hhand
        have hpoints :
            (handPoints? (die :: rest)).isSome = true ↔ doubles (die :: rest) = true := by
          cases h : doubles (die :: rest) <;> simp [handPoints?, h]
        rw [hpoints, ← exists_stuntChars_iff]
        constructor
        · rintro ⟨d', die', rest', tail, hd, hcons, hshown⟩
          cases hd
          cases hhand.symm.trans hcons
          exact ⟨tail, hchars.symm.trans hshown⟩
        · rintro ⟨tail, hshown⟩
          exact ⟨d, die, rest, tail, rfl, hhand, hchars.trans hshown⟩

end Pool

namespace Sketch

def Spent (k : Sketch) (is : List Nat) : Prop := ∀ i ∈ is, i < k.met ∧ i ∉ k.bare

theorem spent_step (hk : k.Linear) (h : k.Spent spent) (t : Token) :
    (k.step t).Spent (spent ++ k.rolledBy t) := by
  intro i hi
  cases ht : t.kind.isPool with
  | true =>
      rw [rolledBy_of_operator?_none (Token.operator?_of_isPool ht), List.append_nil] at hi
      obtain ⟨hlt, hwait⟩ := h i hi
      rw [met_step_of_isPool ht, bare_step_of_isPool ht, List.mem_cons, not_or]
      exact ⟨Nat.lt_succ_of_lt hlt, Nat.ne_of_lt hlt, hwait⟩
  | false =>
      have hsplit := bare_eq_append (k := k) ht
      have hnodup := nodup_bare hk
      rw [hsplit] at hnodup
      rw [met_step_of_not_isPool ht]
      rcases List.mem_append.mp hi with hi | hi
      · obtain ⟨hlt, hwait⟩ := h i hi
        exact ⟨hlt, fun hbare => hwait (hsplit ▸ List.mem_append_right _ hbare)⟩
      · refine ⟨lt_met_of_mem_bare hk (hsplit ▸ List.mem_append_left _ hi), fun hbare => ?_⟩
        exact (List.nodup_append'.mp hnodup).2.2 hi hbare

theorem mem_rolls_of_length_le {ts : List Token} (h : (k.run ts).operands.length ≤ 1) {i : Nat}
    (hi : i ∈ k.bare ∨ k.met ≤ i ∧ i < (k.run ts).met) : i ∈ k.rolls ts := by
  induction ts generalizing k with
  | nil =>
      rcases hi with hi | ⟨hge, hlt⟩
      · rw [bare] at hi
        cases hk : k.operands with
        | nil => simp [hk] at hi
        | cons e rest =>
            cases rest with
            | nil =>
                rw [hk, filterMap_bare_cons, List.filterMap_nil, List.append_nil] at hi
                rwa [rolls, hk]
            | cons => simp [run, hk] at h
      · exact absurd hlt (Nat.not_lt_of_le hge)
  | cons t ts ih =>
      rw [rolls]
      cases ht : t.kind.isPool with
      | true =>
          refine List.mem_append_right _ (ih h ?_)
          rw [met_step_of_isPool ht, bare_step_of_isPool ht]
          rcases hi with hi | ⟨hge, hlt⟩
          · exact .inl (List.mem_cons_of_mem _ hi)
          · rcases Nat.eq_or_lt_of_le hge with rfl | hgt
            · exact .inl List.mem_cons_self
            · exact .inr ⟨hgt, hlt⟩
      | false =>
          have hmet := met_step_of_not_isPool (k := k) ht
          rcases hi with hi | ⟨hge, hlt⟩
          · rw [bare_eq_append ht] at hi
            rcases List.mem_append.mp hi with hi | hi
            · exact List.mem_append_left _ hi
            · exact List.mem_append_right _ (ih h (.inl hi))
          · exact List.mem_append_right _ (ih h (.inr ⟨hmet ▸ hge, hlt⟩))

end Sketch

def pointsAt (ps : List Pool) (i : Nat) : Option Int64 := ps[i]?.bind Pool.stuntPoints?

theorem pointsAt_of_map_plain {ps qs : List Pool} (h : ps.map Pool.plain = qs.map Pool.plain) :
    pointsAt ps = pointsAt qs := by
  have key (ps : List Pool) :
      pointsAt ps = fun i => (ps.map Pool.plain)[i]?.bind Pool.stuntPoints? := by
    funext i
    simp only [pointsAt, List.getElem?_map, Option.bind_map]
    exact congrArg (ps[i]?.bind ·) (funext fun pool => (Pool.stuntPoints?_plain pool).symm)
  rw [key ps, key qs, h]

theorem pointsAt_append {ps : List Pool} {i : Nat} (h : i < ps.length) (new : List Pool) :
    pointsAt (ps ++ new) i = pointsAt ps i := by
  simp [pointsAt, List.getElem?_append_left h]

theorem pointsAt_set_self {ps : List Pool} {i : Nat} (h : i < ps.length) (pool : Pool) :
    pointsAt (ps.set i pool) i = pool.stuntPoints? := by
  simp [pointsAt, h]

theorem pointsAt_set_of_ne {ps : List Pool} {i j : Nat} (h : i ≠ j) (pool : Pool) :
    pointsAt (ps.set i pool) j = pointsAt ps j := by
  simp [pointsAt, List.getElem?_set_ne h]

namespace Pass

/-- Of the pools rolled so far, the last one that has points on the table has left them. -/
def Noted (spent : List Nat) (p : Pass σ) : Prop :=
  p.stuntPoints = (spent.filterMap (pointsAt p.pools)).getLast?

theorem noted_of_pointsAt (h : Noted spent p) (hq : q.stuntPoints = p.stuntPoints)
    (hp : ∀ i ∈ spent, pointsAt q.pools i = pointsAt p.pools i) : Noted spent q := by
  rw [Noted, hq, List.filterMap_congr hp]
  exact h

theorem noted_settle {e : Tree} {x : Operand} (h : Noted spent p) (hx : Stands p.pools e x)
    (he : ∀ i, e.bare? = some i → i ∉ spent) :
    Noted (spent ++ e.bare?.toList) (p.settle r x).2 := by
  cases hx with
  | folded fixed _ =>
      rw [settle_folded fixed, Tree.bare?, Option.toList_none, List.append_nil]
      exact h
  | @pool i hi =>
      have hfresh : i ∉ spent := he i rfl
      rw [settle_pool (List.getElem?_eq_getElem hi)]
      have hframe : spent.filterMap (pointsAt (p.pools.set i (p.pools[i].rolled r p.source))) =
          spent.filterMap (pointsAt p.pools) :=
        List.filterMap_congr fun j hj =>
          pointsAt_set_of_ne (fun hij : i = j => hfresh (hij ▸ hj)) _
      have hself := pointsAt_set_self hi (p.pools[i].rolled r p.source)
      simp only [Noted, Tree.bare?, Option.toList_some, List.filterMap_append, hframe,
        List.getLast?_append, List.filterMap_cons, hself]
      rw [← show p.stuntPoints = _ from h]
      cases (p.pools[i].rolled r p.source).stuntPoints? <;> rfl

theorem noted_meet (h : Follows k p) (hs : k.Spent spent) (hn : Noted spent p)
    (hq : p.meet r t = .ok q) : Noted spent q := by
  obtain ⟨p', hp', rfl⟩ := exists_of_meet hq
  obtain ⟨-, -, -, new, hpools⟩ := hp'.exists_append h.room
  have hpoints : p'.stuntPoints = p.stuntPoints := by cases hp' <;> (subst p'; rfl)
  refine noted_of_pointsAt hn ((stuntPoints_condition t p').trans hpoints) fun i hi => ?_
  have hlt : i < p.pools.length := Nat.lt_of_lt_of_le (h.met ▸ (hs i hi).1) h.room
  calc
    pointsAt (p'.condition t).pools i = pointsAt p'.pools i :=
      congrFun (pointsAt_of_map_plain (map_plain_condition t p')) i
    _ = pointsAt p.pools i := by rw [hpools, pointsAt_append hlt]

theorem noted_attach (hn : Noted spent p) (word : ModifierWord) (t : Token) :
    Noted spent (p.attach word t) :=
  noted_of_pointsAt hn (stuntPoints_attach word t p) fun i _ =>
    congrFun (pointsAt_of_map_plain (map_plain_attach word t p)) i

theorem noted_combine {op : Operator} {right left : Tree} {rest : List Tree} (h : Follows k p)
    (hs : k.Spent spent) (hn : Noted spent p) (hk : k.operands = right :: left :: rest)
    (text : String) :
    Noted (spent ++ (right.bare?.toList ++ left.bare?.toList)) (p.combine r op text) := by
  obtain ⟨x, y, zs, hpo, hx, hy, -, hd, -⟩ := h.exists_operands hk
  have hbare : k.bare = right.bare?.toList ++ (left.bare?.toList ++ rest.filterMap Tree.bare?) := by
    rw [Sketch.bare, hk, Sketch.filterMap_bare_cons, Sketch.filterMap_bare_cons]
  have hright : ∀ i, right.bare? = some i → i ∉ spent := fun i hi hmem =>
    (hs i hmem).2 (by simp [hbare, hi])
  have hleft : ∀ i, left.bare? = some i → i ∉ spent ++ right.bare?.toList := fun i hi hmem => by
    rcases List.mem_append.mp hmem with hmem | hmem
    · exact (hs i hmem).2 (by simp [hbare, hi])
    · have hnodup := Sketch.nodup_bare h.linear
      rw [hbare] at hnodup
      exact (List.nodup_append'.mp hnodup).2.2 hmem (by simp [hi])
  have hstart : Noted spent { p with operands := zs } := hn
  have hb := noted_settle (r := r) hstart hx hright
  have ha := noted_settle (r := r) hb (stands_settle hx hy hd) hleft
  rw [combine_of_operands hpo, ← List.append_assoc]
  exact ha

theorem noted_step (h : Follows k p) (hs : k.Spent spent) (hn : Noted spent p)
    (hq : p.step r t = .ok q) : Noted (spent ++ k.rolledBy t) q := by
  cases t.role with
  | pool ht =>
      rw [step_of_isPool ht] at hq
      rw [Sketch.rolledBy_of_operator?_none (Token.operator?_of_isPool ht), List.append_nil]
      exact noted_meet h hs hn hq
  | modifier word ht =>
      rw [step_of_modifier ht] at hq
      cases hq
      rw [Sketch.rolledBy_of_operator?_none (Token.operator?_of_modifier ht), List.append_nil]
      exact noted_attach hn word t
  | unknown f ht =>
      rw [step_of_unknown ht] at hq
      cases hq
      rw [Sketch.rolledBy_of_unknown ht, List.append_nil]
      exact hn
  | operator op ht =>
      rw [step_of_operator ht] at hq
      cases hq
      match hk : k.operands with
      | right :: left :: rest =>
          rw [Sketch.rolledBy_of_operator ht hk]
          exact noted_combine h hs hn hk t.text
      | [] | [_] =>
          have hlt : p.operands.length < 2 := by rw [← h.operands.length_eq, hk]; simp
          obtain ⟨f, hf⟩ := combine_of_length_lt r op t.text hlt
          rw [Sketch.rolledBy_of_length_lt (by simp [hk]), List.append_nil, hf]
          exact hn

theorem stuntPoints_closed (p : Pass σ) : p.closed.stuntPoints = p.stuntPoints := by
  unfold closed
  split <;> rfl

theorem noted_run {ts : List Token} {x : Operand} {rest : List Operand} (h : Follows k p)
    (hs : k.Spent spent) (hn : Noted spent p) (hq : p.run r ts = (none, q))
    (hx : q.operands = x :: rest) : Noted (spent ++ k.rolls ts) (q.closed.settle r x).2 := by
  induction ts generalizing k p spent with
  | nil =>
      cases hq
      have hops := h.operands
      rw [hx] at hops
      obtain ⟨e, es, hex, -, hk⟩ := List.forall₂_cons_right_iff.mp hops
      have hpools := (closed_frame q).1
      have hclosed : Noted spent q.closed :=
        noted_of_pointsAt hn (stuntPoints_closed q) fun i _ => by rw [hpools]
      rw [Sketch.rolls, hk]
      refine noted_settle hclosed (hpools ▸ hex) fun i hi hmem => (hs i hmem).2 ?_
      rw [Sketch.bare, hk, Sketch.filterMap_bare_cons, hi]
      exact List.mem_cons_self
  | cons t ts ih =>
      cases hps : p.step r t with
      | error f => simp [run, hps] at hq
      | ok p' =>
          rw [run_cons_ok hps] at hq
          rw [Sketch.rolls, ← List.append_assoc]
          have hspent := Sketch.spent_step h.linear hs t
          exact ih (follows_step h hps) hspent (noted_step h hs hn hps) hq

end Pass

namespace Tray

variable {tokens : List Token} {tray : Tray} {s : σ} {passes : Nat}

theorem stuntPoints_of_roll_ok {n : Number} (hn : (tray.roll r tokens s).1 = .ok n) :
    (tray.roll r tokens s).2.1.stuntPoints =
      ((Sketch.rolls {} tokens).filterMap
        (pointsAt (tray.roll r tokens s).2.1.pools)).getLast? := by
  obtain ⟨p, x, rest, hrun, hx, -⟩ := exists_of_roll_ok hn
  have hstart : Pass.Noted [] (tray.start s) := rfl
  have hspent : Sketch.Spent {} [] := fun _ hi => absurd hi List.not_mem_nil
  have hnoted := Pass.noted_run (Pass.follows_start tray s) hspent hstart hrun hx
  rw [roll_eq_of_run hrun hx]
  exact hnoted

theorem mem_rolls_of_roll_ok (h : Session tokens passes tray) {n : Number}
    (hn : (tray.roll r tokens s).1 = .ok n)
    (hleft : ∀ count, .malformed (.valuesLeft count) ∉ (tray.roll r tokens s).2.1.notices) {i : Nat}
    (hi : i < (tray.roll r tokens s).2.1.pools.length) : i ∈ Sketch.rolls {} tokens := by
  obtain ⟨p, x, rest, hrun, hx, -, hpools, hnotices, -⟩ := exists_of_roll_ok hn
  have hf := Pass.follows_run (Pass.follows_start tray s) hrun
  have hreadable := readable_of_roll_ok (stocked_session h) hn
  have hmet := length_pools_le_met (stocked_session h) hreadable hrun
  have hlen : (tray.roll r tokens s).2.1.pools.length = p.pools.length := by
    rw [hpools]
    simpa [(Pass.closed_frame p).1] using congrArg List.length (Pass.cleared_settle r x p.closed)
  refine Sketch.mem_rolls_of_length_le ?_ (.inr ⟨Nat.zero_le i, ?_⟩)
  · cases rest with
    | nil => rw [hf.operands.length_eq, hx]; exact Nat.le_refl 1
    | cons y rest =>
        refine absurd ?_ (hleft p.operands.length)
        rw [hnotices, (Pass.settle_frame r x p.closed).2.2]
        exact Pass.mem_notices_closed hx
  · rw [← hf.met]
    exact Nat.lt_of_lt_of_le (hlen ▸ hi) hmet

theorem annotation_of_roll_ok (h : Session tokens passes tray) {n : Number}
    (hn : (tray.roll r tokens s).1 = .ok n) :
    let after := (tray.roll r tokens s).2.1
    let rolls := Sketch.rolls {} tokens
    after.annotation? = ((rolls.filterMap (pointsAt after.pools)).getLast?.map fun points =>
      " - " ++ (Number.int points).text ++ " Stunt Points") ∧
    (after.annotation?.isSome = true ↔ ∃ i ∈ rolls, (pointsAt after.pools i).isSome = true) ∧
    ((∀ count, .malformed (.valuesLeft count) ∉ after.notices) →
      (after.annotation?.isSome = true ↔ ∃ pool ∈ after.pools, pool.ShowsStunt)) := by
  intro after rolls
  have hpoints : after.stuntPoints = (rolls.filterMap (pointsAt after.pools)).getLast? :=
    stuntPoints_of_roll_ok hn
  have hnoted : after.annotation? =
      ((rolls.filterMap (pointsAt after.pools)).getLast?.map fun points =>
        " - " ++ (Number.int points).text ++ " Stunt Points") := by
    rw [annotation?, hpoints]
  have hsome : after.annotation?.isSome = true ↔
      ∃ i ∈ rolls, (pointsAt after.pools i).isSome = true := by
    rw [hnoted, Option.isSome_map]
    exact isSome_getLast?_filterMap
  refine ⟨hnoted, hsome, fun hleft => hsome.trans ⟨?_, ?_⟩⟩
  · rintro ⟨i, -, hi⟩
    obtain ⟨points, hi⟩ := Option.isSome_iff_exists.mp hi
    obtain ⟨pool, hpool, hshown⟩ := Option.bind_eq_some_iff.mp hi
    exact ⟨pool, List.mem_of_getElem? hpool, (Pool.showsStunt_iff pool).mpr (by rw [hshown]; rfl)⟩
  · rintro ⟨pool, hmem, hshown⟩
    obtain ⟨i, hi, rfl⟩ := List.getElem_of_mem hmem
    refine ⟨i, mem_rolls_of_roll_ok h hn hleft hi, ?_⟩
    rw [pointsAt, List.getElem?_eq_getElem hi]
    exact (Pool.showsStunt_iff _).mp hshown

theorem annotation_of_roll_ok_left_last :
    let tokens : List Token := [.stunt "3d6", .stunt "s", .math .add]
    let first := ({} : Tray).roll (Roller.replay [6, 6, 1]) tokens 0
    let shown := first.2.1.restore (.dice (some (.int 3)) "3")
    let second := shown.roll (Roller.replay [5, 5, 1, 2, 2, 6]) tokens 0
    Session tokens 1 shown ∧ (∃ n, second.1 = .ok n) ∧
      (∀ count, .malformed (.valuesLeft count) ∉ second.2.1.notices) ∧
      second.2.1.annotation? = some " - 2 Stunt Points" ∧
      ∃ pool ∈ second.2.1.pools, pool.ShowsStunt := by
  intro tokens first shown second
  have hverdict : verdict? tokens = none := by decide
  obtain ⟨m, hm⟩ :=
    (roll_of_verdict? (stocked_session .start) (Roller.replay [6, 6, 1]) 0).2 hverdict
  have hshown : Session tokens 1 shown := .restored (.passed .start _ _ hm) _
  obtain ⟨n, hn⟩ :=
    (roll_of_verdict? (stocked_session hshown) (Roller.replay [5, 5, 1, 2, 2, 6]) 0).2 hverdict
  have hnotices : second.2.1.notices = [] := by rfl
  have hleft (count : Nat) : .malformed (.valuesLeft count) ∉ second.2.1.notices := by
    rw [hnotices]
    exact List.not_mem_nil
  obtain ⟨hnoted, -, hshows⟩ := annotation_of_roll_ok hshown hn
  have hrolls : (Sketch.rolls {} tokens).filterMap (pointsAt second.2.1.pools) = [5, 2] := by rfl
  rw [hrolls] at hnoted
  have htext : second.2.1.annotation? = some " - 2 Stunt Points" :=
    hnoted.trans (by decide)
  exact ⟨hshown, ⟨n, hn⟩, hleft, htext, (hshows hleft).mp (by rw [htext]; rfl)⟩

example :
    let rolled := (({} : Tray).roll (Roller.replay [5, 5, 1, 1, 2, 3, 2, 3, 6])
      [.stunt "3d6", .stunt "s"] 0).2.1
    rolled.pools.map Pool.stuntPoints? = [some 5, none] ∧ rolled.annotation? = none := by
  decide

end Tray

end DiceTray
