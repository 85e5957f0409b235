import DiceTray.Pool.Dice
import DiceTray.Proofs.Hand.Rank

namespace DiceTray

namespace Hand

variable {h : Hand} {i low high : Nat} {d : Die}

theorem getElem?_values (hd : h[i]? = some d) : h.values[i]? = some d.value := by
  rw [values, List.getElem?_map, hd]
  rfl

theorem rank_lt (hd : h[i]? = some d) : rank h.values i d.value < h.length := by
  have hmem := List.mem_of_getElem? (getElem?_ranks (getElem?_values hd))
  have hlt := List.mem_range.mp ((ranks_perm h.values).subset hmem)
  simpa [values] using hlt

theorem getElem?_dropWhere (p : Nat → Bool) (hd : h[i]? = some d) :
    (h.dropWhere p)[i]? = some (if p (rank h.values i d.value) then d.drop else d) := by
  simp [dropWhere, List.getElem?_zipWith, hd, getElem?_ranks (getElem?_values hd)]

theorem exists_of_getElem?_dropWhere {p : Nat → Bool} {e : Die}
    (he : (h.dropWhere p)[i]? = some e) :
    ∃ d, h[i]? = some d ∧ e = if p (rank h.values i d.value) then d.drop else d := by
  cases hd : h[i]? with
  | none =>
      have hlen := List.getElem?_eq_none_iff.mp hd
      rw [List.getElem?_eq_none (by rwa [length_dropWhere])] at he
      cases he
  | some d =>
      rw [getElem?_dropWhere p hd] at he
      exact ⟨d, rfl, (Option.some.inj he).symm⟩

/-- The dice with the ranks from `low` on and below `high` count, and the others are dropped. -/
structure Kept (low high : Nat) (h : Hand) : Prop where
  counts_iff : ∀ {i : Nat} {d : Die}, h[i]? = some d →
    (d.counts = true ↔ low ≤ rank h.values i d.value ∧ rank h.values i d.value < high)
  marks_eq : ∀ d ∈ h, d.marks = if d.counts then {} else ⟨[.dropped]⟩

theorem kept_fresh (vs : List Int64) : Kept 0 vs.length (vs.map Die.fresh) := by
  constructor
  · intro i d hd
    have hlt := rank_lt hd
    obtain ⟨v, -, rfl⟩ := List.mem_map.mp (List.mem_of_getElem? hd)
    rw [List.length_map] at hlt
    exact iff_of_true rfl ⟨Nat.zero_le _, hlt⟩
  · intro d hd
    obtain ⟨v, -, rfl⟩ := List.mem_map.mp hd
    rfl

theorem Kept.dropWhere {low' high' : Nat} (hk : Kept low high h) (p : Nat → Bool)
    (hp : ∀ rank, (low' ≤ rank ∧ rank < high') ↔ p rank = false ∧ low ≤ rank ∧ rank < high) :
    Kept low' high' (h.dropWhere p) := by
  -- Dropping leaves the values, so a second drop ranks the dice as the first one did.
  constructor
  · intro i e he
    obtain ⟨d, hd, rfl⟩ := exists_of_getElem?_dropWhere he
    have hiff := hk.counts_iff hd
    rw [values_dropWhere, hp]
    split
    case isTrue hdrop => simp [Die.drop, Die.mark, hdrop]
    case isFalse hkeep => simp [hkeep, hiff]
  · intro e he
    obtain ⟨i, hi⟩ := List.mem_iff_getElem?.mp he
    obtain ⟨d, hd, rfl⟩ := exists_of_getElem?_dropWhere hi
    have hmarks := hk.marks_eq d (List.mem_of_getElem? hd)
    split
    case isFalse => exact hmarks
    case isTrue =>
      cases hcounts : d.counts <;> simp [Die.drop, Die.mark, hmarks, hcounts, Marks.add, Marks.has]

theorem Kept.keepHigh (hk : Kept low high h) (n : Nat) : Kept low (min n high) (h.keepHigh n) :=
  hk.dropWhere _ fun rank => by
    rw [decide_eq_false_iff_not]
    omega

theorem Kept.keepLow (hk : Kept low high h) (n : Nat) :
    Kept (max low (h.length - n)) high (h.keepLow n) :=
  hk.dropWhere _ fun rank => by
    rw [decide_eq_false_iff_not]
    omega

theorem Kept.of_iff {low' high' : Nat} (hk : Kept low high h)
    (hi : ∀ rank < h.length, (low' ≤ rank ∧ rank < high') ↔ low ≤ rank ∧ rank < high) :
    Kept low' high' h :=
  ⟨fun hd => (hk.counts_iff hd).trans (hi _ (rank_lt hd)).symm, hk.marks_eq⟩

theorem countP_range (low high n : Nat) :
    (List.range n).countP (fun rank => decide (low ≤ rank ∧ rank < high)) = min n high - low := by
  induction n with
  | zero => simp
  | succ n ih =>
      rw [List.range_succ, List.countP_append, ih, List.countP_singleton]
      split
      case isTrue h =>
        have hn := of_decide_eq_true h
        omega
      case isFalse h =>
        rw [decide_eq_true_iff] at h
        omega

theorem Kept.map_counts (hk : Kept low high h) :
    h.map Die.counts = (ranks h.values).map fun rank => decide (low ≤ rank ∧ rank < high) := by
  refine List.ext_getElem? fun i => ?_
  rw [List.getElem?_map, List.getElem?_map]
  cases hd : h[i]? with
  | none =>
      have hlen : (ranks h.values).length ≤ i := by
        simpa [length_ranks, values] using List.getElem?_eq_none_iff.mp hd
      rw [List.getElem?_eq_none hlen]
      rfl
  | some d =>
      rw [getElem?_ranks (getElem?_values hd), Option.map_some, Option.map_some, Option.some.injEq,
        Bool.eq_iff_iff, hk.counts_iff hd, decide_eq_true_iff]

theorem Kept.countP_counts (hk : Kept low high h) :
    h.countP Die.counts = min h.length high - low := by
  have hlen : h.values.length = h.length := List.length_map ..
  have hmap := congrArg (List.countP id) hk.map_counts
  rw [List.countP_map, List.countP_map, Function.id_comp, Function.id_comp] at hmap
  rw [hmap, (ranks_perm h.values).countP_eq, countP_range, hlen]

theorem Kept.not_counts_iff (hk : Kept low high h) (hd : h[i]? = some d) :
    d.counts = false ↔ rank h.values i d.value < low ∨ high ≤ rank h.values i d.value := by
  rw [← Bool.not_eq_true, hk.counts_iff hd]
  omega

theorem Kept.countP_not_counts (hk : Kept low high h) :
    h.countP (fun d => !d.counts) = h.length - (min h.length high - low) := by
  have hcounts := hk.countP_counts
  have hsplit : h.length = h.countP Die.counts + h.countP fun d => !d.counts := by
    simpa using List.length_eq_countP_add_countP Die.counts
  omega

structure DropsLowest (m : Nat) (h : Hand) : Prop where
  countP_eq : h.countP (fun d => !d.counts) = m
  not_counts_iff : ∀ {i : Nat} {d : Die}, h[i]? = some d →
    (d.counts = false ↔ h.length - m ≤ rank h.values i d.value)

structure DropsHighest (m : Nat) (h : Hand) : Prop where
  countP_eq : h.countP (fun d => !d.counts) = m
  not_counts_iff : ∀ {i : Nat} {d : Die}, h[i]? = some d →
    (d.counts = false ↔ rank h.values i d.value < m)

theorem Kept.dropsLowest {m : Nat} (hk : Kept 0 (h.length - m) h) (hm : m ≤ h.length) :
    DropsLowest m h := by
  refine ⟨?_, fun hd => ?_⟩
  · rw [hk.countP_not_counts]
    omega
  · rw [hk.not_counts_iff hd]
    omega

theorem Kept.dropsHighest {m : Nat} (hk : Kept m h.length h) (hm : m ≤ h.length) :
    DropsHighest m h := by
  refine ⟨?_, fun hd => ?_⟩
  · rw [hk.countP_not_counts]
    omega
  · have hlt := rank_lt hd
    rw [hk.not_counts_iff hd]
    omega

end Hand

namespace Dice

variable {σ : Type} {ms : Modifiers} {hand : Hand}

theorem kept_applyAll (h : hand.Kept 0 hand.length) (r : Roller σ) (faces : Faces) (s : σ)
    (hr : ms.reroll = none) (he : ms.explode = none) (hi : ms.explodeInto = none) :
    let kept := (applyAll r faces ms Phase.all hand s).1
    let high := (ms.keepHigh.map Modifier.magnitude).getD hand.length
    let low := (ms.keepLow.map Modifier.magnitude).getD hand.length
    kept.length = hand.length ∧ kept.Kept (hand.length - min low hand.length) high := by
  rcases ms with ⟨high, low, _, _, _⟩
  cases hr
  cases he
  cases hi
  cases high with
  | none =>
      cases low with
      | none =>
          refine ⟨rfl, h.of_iff fun rank hlt => ?_⟩
          simp only [Option.map_none, Option.getD_none]
          omega
      | some m =>
          have hlen : (hand.keepLow m.magnitude).length = hand.length := Hand.length_dropWhere ..
          refine ⟨hlen, (h.keepLow m.magnitude).of_iff fun rank hlt => ?_⟩
          simp only [Option.map_some, Option.map_none, Option.getD_some, Option.getD_none]
          omega
  | some m =>
      have hlen : (hand.keepHigh m.magnitude).length = hand.length := Hand.length_dropWhere ..
      cases low with
      | none =>
          refine ⟨hlen, (h.keepHigh m.magnitude).of_iff fun rank hlt => ?_⟩
          simp only [Option.map_some, Option.map_none, Option.getD_some, Option.getD_none]
          omega
      | some m' =>
          have hlen' : ((hand.keepHigh m.magnitude).keepLow m'.magnitude).length = hand.length :=
            (Hand.length_dropWhere ..).trans hlen
          refine ⟨hlen', ((h.keepHigh m.magnitude).keepLow m'.magnitude).of_iff fun rank hlt => ?_⟩
          simp only [Option.map_some, Option.getD_some, hlen]
          omega

theorem kept_roll (d : Dice) (r : Roller σ) (s : σ) (hr : d.modifiers.reroll = none)
    (he : d.modifiers.explode = none) (hi : d.modifiers.explodeInto = none)
    (hc : d.conditions = []) :
    let kept := (d.roll r s).2.1.hand
    let high := (d.modifiers.keepHigh.map Modifier.magnitude).getD d.count
    let low := (d.modifiers.keepLow.map Modifier.magnitude).getD d.count
    kept.length = d.count ∧ kept.Kept (d.count - min low d.count) high := by
  intro kept high low
  let drawn := Hand.draw r d.faces d.count s
  have hlen : drawn.1.length = d.count := Hand.length_draw r d.faces d.count s
  have hfresh : drawn.1.Kept 0 drawn.1.length := by
    rw [hlen, ← r.length_drawMany d.faces d.count s]
    exact Hand.kept_fresh _
  have hkept : kept = (applyAll r d.faces d.modifiers Phase.all drawn.1 drawn.2).1 := by
    change Hand.countSuccesses d.conditions _ = _
    rw [hc]
    rfl
  have hroll := kept_applyAll hfresh r d.faces drawn.2 hr he hi
  rw [hlen, ← hkept] at hroll
  exact hroll

end Dice

end DiceTray
