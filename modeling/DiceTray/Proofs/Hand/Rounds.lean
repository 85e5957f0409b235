import DiceTray.Proofs.Hand.Blocks

namespace DiceTray

theorem Marks.count_add_self {ms : Marks} (h : ms.toList.Nodup) (m : Mark) :
    (ms.add m).toList.count m = 1 :=
  List.count_eq_one_of_mem (nodup_add h m) (mem_add.mpr (.inr rfl))

namespace Hand

section Batch

/-- A round gives each die of the batch its next value, from left to right. -/
inductive Dealt : List (Bool × Die) → List Int64 → List (Bool × Die) → Prop where
  | nil : Dealt [] [] []
  | spared {d : Die} {b b' : List (Bool × Die)} {vs : List Int64} (rest : Dealt b vs b') :
      Dealt ((false, d) :: b) vs ((false, d) :: b')
  | drawn {d : Die} {v : Int64} {b b' : List (Bool × Die)} {vs : List Int64}
      (rest : Dealt b vs b') :
      Dealt ((true, d) :: b) (v :: vs) ((true, { d with value := v }.mark .rerolled) :: b')

def anyFires (trigger : List Condition) (b : List (Bool × Die)) : Bool :=
  b.any fun (chosen, d) => chosen && fires trigger d.value

/-- Rounds that go on for as long as a die of the batch fires, at most so many. -/
inductive Rounds (trigger : List Condition) :
    Nat → List (Bool × Die) → List (List Int64) → List (Bool × Die) → Prop where
  | done {times : Nat} {b : List (Bool × Die)} (h : anyFires trigger b = false ∨ times = 0) :
      Rounds trigger times b [] b
  | next {times : Nat} {b b' b'' : List (Bool × Die)} {vs : List Int64}
      {rounds : List (List Int64)} (h : anyFires trigger b = true) (hvs : Dealt b vs b')
      (rest : Rounds trigger times b' rounds b'') :
      Rounds trigger (times + 1) b (vs :: rounds) b''

variable {σ : Type} {trigger : List Condition} {times i : Nat} {b b' b'' : List (Bool × Die)}
  {vs ws : List Int64} {rounds : List (List Int64)} {d : Die}

theorem Dealt.map_fst (h : Dealt b vs b') : b'.map (·.1) = b.map (·.1) := by
  induction h with
  | nil => rfl
  | spared _ ih => exact congrArg (false :: ·) ih
  | drawn _ ih => exact congrArg (true :: ·) ih

theorem Dealt.length_draws (h : Dealt b vs b') : vs.length = b.countP (·.1) := by
  induction h with
  | nil => rfl
  | spared _ ih => simpa using ih
  | drawn _ ih => simpa using ih

theorem Dealt.trans (hb : Dealt b vs b') (hc : Dealt b' ws b'') : Dealt b ws b'' := by
  induction hb generalizing ws b'' with
  | nil => exact hc
  | spared _ ih =>
      obtain _ | hc | _ := hc
      exact .spared (ih hc)
  | @drawn d v _ _ _ _ ih =>
      obtain _ | _ | @⟨_, w, _, _, _, hc⟩ := hc
      have hmark : { { d with value := v }.mark .rerolled with value := w }.mark .rerolled =
          { d with value := w }.mark .rerolled := by
        simp only [Die.mark, Marks.add_add]
      rw [hmark]
      exact .drawn (ih hc)

theorem Dealt.anyFires_eq (h : Dealt b vs b') : anyFires trigger b' = vs.any (fires trigger) := by
  induction h with
  | nil => rfl
  | spared _ ih => exact ih
  | drawn _ ih => exact congrArg (fires trigger _ || ·) ih

theorem Dealt.getElem?_spared (h : Dealt b vs b') (hd : b[i]? = some (false, d)) :
    b'[i]? = some (false, d) := by
  induction h generalizing i with
  | nil => exact hd
  | spared _ ih =>
      cases i with
      | zero => exact hd
      | succ i => exact ih hd
  | drawn _ ih =>
      cases i with
      | zero => cases hd
      | succ i => exact ih hd

theorem Dealt.getElem?_drawn (h : Dealt b vs b') (hd : b[i]? = some (true, d)) :
    ∃ v, vs[(b.take i).countP (·.1)]? = some v ∧
      b'[i]? = some (true, { d with value := v }.mark .rerolled) := by
  induction h generalizing i with
  | nil => cases hd
  | spared _ ih =>
      cases i with
      | zero => cases hd
      | succ i => simpa using ih hd
  | @drawn _ v _ _ _ _ ih =>
      cases i with
      | zero =>
          cases hd
          exact ⟨v, rfl, rfl⟩
      | succ i => simpa using ih hd

theorem dealt_redraw (r : Roller σ) (faces : Faces) (b : List (Bool × Die)) (s : σ) :
    let made := redraw r faces b s
    ∃ vs, Dealt b vs made.1 ∧ r.Draws faces s vs made.2 := by
  induction b generalizing s with
  | nil => exact ⟨[], .nil, rfl⟩
  | cons x b ih =>
      obtain ⟨chosen, d⟩ := x
      cases chosen with
      | false =>
          obtain ⟨vs, hvs, hdraws⟩ := ih s
          exact ⟨vs, .spared hvs, hdraws⟩
      | true =>
          obtain ⟨vs, hvs, hdraws⟩ := ih (r.draw faces s).2
          exact ⟨_ :: vs, .drawn hvs, Roller.draws_cons_iff.mpr ⟨rfl, hdraws⟩⟩

theorem rounds_redrawWhile (r : Roller σ) (faces : Faces) (trigger : List Condition) (times : Nat)
    (b : List (Bool × Die)) (s : σ) :
    let made := redrawWhile r faces trigger times b s
    ∃ rounds, Rounds trigger times b rounds made.1 ∧ r.Draws faces s rounds.flatten made.2 := by
  induction times generalizing b s with
  | zero => exact ⟨[], .done (.inr rfl), rfl⟩
  | succ times ih =>
      rw [redrawWhile]
      split
      case isTrue hb =>
          obtain ⟨vs, hvs, hround⟩ := dealt_redraw r faces b s
          obtain ⟨rounds, hrounds, hrest⟩ := ih (redraw r faces b s).1 (redraw r faces b s).2
          exact ⟨vs :: rounds, .next hb hvs hrounds,
            Roller.draws_append_iff.mpr ⟨_, hround, hrest⟩⟩
      case isFalse hb => exact ⟨[], .done (.inl (Bool.not_eq_true _ ▸ hb)), rfl⟩

theorem Rounds.length_le (h : Rounds trigger times b rounds b'') : rounds.length ≤ times := by
  induction h with
  | done => exact Nat.zero_le _
  | next _ _ _ ih => exact Nat.succ_le_succ ih

theorem Rounds.exists_dealt_of_mem (h : Rounds trigger times b rounds b'') (hvs : vs ∈ rounds) :
    ∃ b', Dealt b vs b' := by
  induction h with
  | done => cases hvs
  | next _ hfirst _ ih =>
      obtain _ | ⟨_, hvs⟩ := hvs
      · exact ⟨_, hfirst⟩
      · obtain ⟨b', hc⟩ := ih hvs
        exact ⟨b', hfirst.trans hc⟩

theorem Rounds.map_fst (h : Rounds trigger times b rounds b'') : b''.map (·.1) = b.map (·.1) := by
  induction h with
  | done => rfl
  | next _ hfirst _ ih => exact ih.trans hfirst.map_fst

theorem Rounds.getElem?_spared (h : Rounds trigger times b rounds b'')
    (hd : b[i]? = some (false, d)) : b''[i]? = some (false, d) := by
  induction h with
  | done => exact hd
  | next _ hfirst _ ih => exact ih (hfirst.getElem?_spared hd)

theorem Rounds.eq_of_nil (h : Rounds trigger times b [] b'') : b'' = b := by
  cases h
  rfl

theorem Rounds.dealt_of_getLast? (h : Rounds trigger times b rounds b'')
    (hvs : rounds.getLast? = some vs) : Dealt b vs b'' := by
  induction h with
  | done => cases hvs
  | @next _ _ _ _ _ rounds _ hfirst hrest ih =>
      cases rounds with
      | nil =>
          cases hvs
          exact hrest.eq_of_nil ▸ hfirst
      | cons ws rounds => exact hfirst.trans (ih hvs)

theorem Rounds.any_fires_of_mem_dropLast (h : Rounds trigger times b rounds b'')
    (hvs : vs ∈ rounds.dropLast) : vs.any (fires trigger) = true := by
  induction h with
  | done => cases hvs
  | next _ hfirst hrest ih =>
      cases hrest with
      | done => cases hvs
      | next hfires =>
          obtain _ | ⟨_, hvs⟩ := hvs
          · exact hfirst.anyFires_eq ▸ hfires
          · exact ih hvs

theorem Rounds.length_eq_or (h : Rounds trigger times b rounds b'') :
    rounds.length = times ∨ anyFires trigger b'' = false := by
  induction h with
  | done h => exact h.symm.imp_left Eq.symm
  | next _ _ _ ih => exact ih.imp_left (congrArg Nat.succ)

end Batch

section Reroll

variable {σ : Type} {trigger : List Condition} {h : Hand} {i : Nat} {d : Die}

def firing (trigger : List Condition) (h : Hand) : Nat := h.countP fun d => fires trigger d.value

def batch (trigger : List Condition) (h : Hand) : List (Bool × Die) :=
  h.map fun d => (fires trigger d.value, d)

theorem countP_batch (trigger : List Condition) (h : Hand) :
    (h.batch trigger).countP (·.1) = h.firing trigger := by
  rw [batch, List.countP_map]
  rfl

theorem map_batch (trigger : List Condition) (h : Hand) : (h.batch trigger).map (·.2) = h :=
  (List.map_map ..).trans (List.map_id h)

theorem getElem?_batch (trigger : List Condition) (hd : h[i]? = some d) :
    (h.batch trigger)[i]? = some (fires trigger d.value, d) := by
  rw [batch, List.getElem?_map, hd]
  rfl

theorem take_batch (trigger : List Condition) (h : Hand) (i : Nat) :
    (h.batch trigger).take i = batch trigger (h.take i) :=
  List.map_take.symm

theorem fires_eq_false_of_anyFires {b : List (Bool × Die)} (hb : anyFires trigger b = false)
    (hd : b[i]? = some (true, d)) : fires trigger d.value = false := by
  simpa using List.any_eq_false.mp hb _ (List.mem_of_getElem? hd)

theorem anyFires_batch (trigger : List Condition) (h : Hand) :
    anyFires trigger (h.batch trigger) = h.any fun d => fires trigger d.value := by
  simp [anyFires, batch, Function.comp_def]

theorem length_flatten_of_forall {vss : List (List Int64)} {n : Nat}
    (hn : ∀ vs ∈ vss, vs.length = n) : vss.flatten.length = vss.length * n := by
  rw [List.length_flatten, List.map_congr_left hn, List.map_const', List.sum_replicate_nat]

section

variable {times : Nat} {rounds : List (List Int64)} {b : List (Bool × Die)} {vs : List Int64}
  (hb : Rounds trigger times (h.batch trigger) rounds b)

include hb

theorem Rounds.eq_nil_of_firing_eq_zero (hzero : h.firing trigger = 0) : rounds = [] := by
  cases hb with
  | done => rfl
  | next hfires =>
      rw [anyFires_batch, List.any_eq_true] at hfires
      obtain ⟨d, hd, hfires⟩ := hfires
      exact absurd hfires (List.countP_eq_zero.mp hzero d hd)

theorem Rounds.length_of_mem_batch (hvs : vs ∈ rounds) : vs.length = h.firing trigger := by
  obtain ⟨b', hvs⟩ := hb.exists_dealt_of_mem hvs
  rw [hvs.length_draws, countP_batch]

theorem Rounds.map_eq_of_nil (hnil : rounds = []) : b.map (·.2) = h := by
  subst hnil
  rw [hb.eq_of_nil, map_batch]

theorem Rounds.length_map_batch : (b.map (·.2)).length = h.length := by
  have hlength := congrArg List.length hb.map_fst
  rw [List.length_map, List.length_map] at hlength
  rw [List.length_map, hlength, batch, List.length_map]

theorem Rounds.getElem?_of_not_fires (hd : h[i]? = some d) (hf : fires trigger d.value = false) :
    (b.map (·.2))[i]? = some d := by
  have hd := getElem?_batch trigger hd
  rw [hf] at hd
  rw [List.getElem?_map, hb.getElem?_spared hd]
  rfl

theorem Rounds.getElem?_of_fires (hvs : rounds.getLast? = some vs) (hd : h[i]? = some d)
    (hf : fires trigger d.value = true) :
    ∃ v, vs[firing trigger (h.take i)]? = some v ∧
      (b.map (·.2))[i]? = some ({ d with value := v }.mark .rerolled) := by
  have hd := getElem?_batch trigger hd
  rw [hf] at hd
  obtain ⟨v, hv, hdrawn⟩ := (hb.dealt_of_getLast? hvs).getElem?_drawn hd
  rw [take_batch, countP_batch] at hv
  exact ⟨v, hv, by rw [List.getElem?_map, hdrawn]; rfl⟩

theorem Rounds.not_fires_of_anyFires {e : Die} (hend : anyFires trigger b = false)
    (hd : h[i]? = some d) (hf : fires trigger d.value = true) (he : (b.map (·.2))[i]? = some e) :
    fires trigger e.value = false := by
  rw [List.getElem?_map, Option.map_eq_some_iff] at he
  obtain ⟨⟨chosen, e⟩, he, rfl⟩ := he
  have hchosen := congrArg (·[i]?) hb.map_fst
  simp only [List.getElem?_map, he, getElem?_batch trigger hd, Option.map_some,
    Option.some.injEq] at hchosen
  rw [hchosen, hf] at he
  exact fires_eq_false_of_anyFires hend he

end

theorem rounds_reroll (r : Roller σ) (faces : Faces) (times : Nat) (trigger : List Condition)
    (h : Hand) (s : σ) :
    ∃ rounds b s', h.reroll r faces times trigger s = (b.map (·.2), s') ∧
      Rounds trigger times (h.batch trigger) rounds b ∧ r.Draws faces s rounds.flatten s' := by
  obtain ⟨rounds, hrounds, hdraws⟩ :=
    rounds_redrawWhile r faces trigger times (h.batch trigger) s
  exact ⟨rounds, _, _, rfl, hrounds, hdraws⟩

theorem exists_rounds_of_reroll (r : Roller σ) (faces : Faces) (times : Nat)
    (trigger : List Condition) (h : Hand) (s : σ) :
    let (g, s') := h.reroll r faces times trigger s
    ∃ rounds : List (List Int64), rounds.length ≤ times ∧
      (∀ vs ∈ rounds, vs.length = h.firing trigger) ∧ r.Draws faces s rounds.flatten s' ∧
      rounds.flatten.length = rounds.length * h.firing trigger ∧ g.length = h.length ∧
      (∀ (i : Nat) (d : Die), h[i]? = some d → fires trigger d.value = false → g[i]? = some d) ∧
      (rounds = [] → g = h) ∧
      (∀ vs, rounds.getLast? = some vs →
        ∀ (i : Nat) (d : Die), h[i]? = some d → fires trigger d.value = true →
          ∃ v marks, vs[firing trigger (h.take i)]? = some v ∧ g[i]? = some ⟨v, d.counts, marks⟩ ∧
            marks = d.marks.add .rerolled ∧
            (d.marks.toList.Nodup → marks.toList.count .rerolled = 1)) ∧
      (∀ vs ∈ rounds.dropLast, ∃ v ∈ vs, fires trigger v = true) ∧
      (rounds.length = times ∨
        ∀ (i : Nat) (d e : Die), h[i]? = some d → fires trigger d.value = true →
          g[i]? = some e → fires trigger e.value = false) ∧
      (h.firing trigger = 0 → rounds = [] ∧ s' = s) := by
  obtain ⟨rounds, b, s', hreroll, hb, hdraws⟩ := rounds_reroll r faces times trigger h s
  have hround : ∀ vs ∈ rounds, vs.length = h.firing trigger := fun _ => hb.length_of_mem_batch
  rw [hreroll]
  refine ⟨rounds, hb.length_le, hround, hdraws, length_flatten_of_forall hround,
    hb.length_map_batch, fun _ _ => hb.getElem?_of_not_fires, hb.map_eq_of_nil,
    fun vs hvs i d hd hf => ?_, fun vs hvs => ?_, ?_, fun hzero => ?_⟩
  · obtain ⟨v, hv, hdrawn⟩ := hb.getElem?_of_fires hvs hd hf
    exact ⟨v, _, hv, hdrawn, rfl, fun hnodup => Marks.count_add_self hnodup _⟩
  · exact List.any_eq_true.mp (hb.any_fires_of_mem_dropLast hvs)
  · exact hb.length_eq_or.imp_right fun hend _ _ _ => hb.not_fires_of_anyFires hend
  · obtain rfl := hb.eq_nil_of_firing_eq_zero hzero
    exact ⟨rfl, (Roller.draws_nil_iff.mp hdraws).symm⟩

theorem exists_rounds_of_reroll_twice :
    let r : Roller (List Int64) := { draw := fun _ vs => (vs.headD 0, vs.tail) }
    let faces : Faces := ⟨1, 10⟩
    let trigger := [Condition.equalTo faces.low]
    let h : Hand := [.fresh 1, .fresh 7, .fresh 1]
    let (g, s') := h.reroll r faces 5 trigger [3, 1, 4, 6]
    ∃ rounds : List (List Int64), rounds.getLast? = some [4, 6] ∧
      r.Draws faces [3, 1, 4, 6] rounds.flatten s' ∧ g[0]? = some ⟨4, true, ⟨[.rerolled]⟩⟩ ∧
      g[1]? = some (.fresh 7) ∧ g[2]? = some ⟨6, true, ⟨[.rerolled]⟩⟩ := by
  intro r faces trigger h
  have hg : h.reroll r faces 5 trigger [3, 1, 4, 6] =
      ([⟨4, true, ⟨[.rerolled]⟩⟩, .fresh 7, ⟨6, true, ⟨[.rerolled]⟩⟩], []) := by decide +kernel
  have hrounds := exists_rounds_of_reroll r faces 5 trigger h [3, 1, 4, 6]
  rw [hg] at hrounds ⊢
  obtain ⟨rounds, -, hlength, hdraws, -, -, hspared, hnone, hdrawn, -⟩ := hrounds
  obtain ⟨vs, hvs⟩ : ∃ vs, rounds.getLast? = some vs := by
    refine Option.ne_none_iff_exists'.mp fun hnil => ?_
    exact absurd (hnone (List.getLast?_eq_none_iff.mp hnil)) (by decide)
  have hplace : firing trigger (h.take 2) = 1 := by decide +kernel
  have hsize : vs.length = 2 :=
    (hlength vs (List.mem_of_getLast? hvs)).trans (by decide +kernel)
  obtain ⟨a, b, rfl⟩ := List.length_eq_two.mp hsize
  obtain ⟨_, _, hfirst, hg, -⟩ := hdrawn _ hvs 0 (.fresh 1) rfl (by decide +kernel)
  cases hg
  obtain ⟨_, _, hlast, hg, -⟩ := hdrawn _ hvs 2 (.fresh 1) rfl (by decide +kernel)
  cases hg
  cases hfirst
  rw [hplace] at hlast
  cases hlast
  exact ⟨rounds, hvs, hdraws, rfl, hspared 1 (.fresh 7) rfl (by decide +kernel), rfl⟩

end Reroll

end Hand

end DiceTray
