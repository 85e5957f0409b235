import DiceTray.Proofs.Pool.Since
import Mathlib.Data.Finset.Card
import Mathlib.Data.Finset.Dedup

namespace DiceTray

section Distinct

variable {α : Type} [DecidableEq α]

theorem nodup_eraseDups (l : List α) : l.eraseDups.Nodup := by
  induction hn : l.length using Nat.strongRecOn generalizing l with
  | ind n ih =>
      cases l with
      | nil => exact List.nodup_nil
      | cons a l =>
          have hlt : (l.filter fun b => !b == a).length < n :=
            hn ▸ Nat.lt_succ_of_le (List.length_filter_le ..)
          rw [List.eraseDups_cons, List.nodup_cons, List.mem_eraseDups]
          exact ⟨by simp, ih _ hlt _ rfl⟩

theorem nodup_of_length_le {l : List α} (h : l.length ≤ l.toFinset.card) : l.Nodup := by
  rw [List.card_toFinset] at h
  rw [← (List.dedup_sublist l).eq_of_length_le h]
  exact List.nodup_dedup l

theorem length_eraseDups (l : List α) : l.eraseDups.length = l.toFinset.card := by
  have hsame : l.eraseDups.toFinset = l.toFinset := by
    ext a
    rw [List.mem_toFinset, List.mem_toFinset, List.mem_eraseDups]
  rw [← List.toFinset_card_of_nodup (nodup_eraseDups l), hsame]

end Distinct

namespace Hand

def totalAt (h : Hand) (i : Fin h.length) : Int64 := (h.get i).total

def TwoAlike (h : Hand) : Prop := ∃ i j, i ≠ j ∧ h.totalAt i = h.totalAt j

def ThreeApart (h : Hand) : Prop :=
  ∃ i j k, h.totalAt i ≠ h.totalAt j ∧ h.totalAt i ≠ h.totalAt k ∧ h.totalAt j ≠ h.totalAt k

variable {h : Hand}

theorem twoAlike_iff : h.TwoAlike ↔ ¬ (h.map Die.total).Nodup := by
  rw [List.Nodup, List.pairwise_map, List.pairwise_iff_getElem]
  constructor
  · rintro ⟨i, j, hij, heq⟩ hne
    rcases Nat.lt_or_gt_of_ne (fun he => hij (Fin.ext he)) with hlt | hgt
    · exact hne i j i.isLt j.isLt hlt heq
    · exact hne j i j.isLt i.isLt hgt heq.symm
  · intro hn
    push Not at hn
    obtain ⟨i, j, hi, hj, hlt, heq⟩ := hn
    exact ⟨⟨i, hi⟩, ⟨j, hj⟩, fun he => Nat.ne_of_lt hlt (Fin.ext_iff.mp he), heq⟩

theorem mem_totals_iff {v : Int64} :
    v ∈ (h.map Die.total).toFinset ↔ ∃ i, h.totalAt i = v := by
  rw [List.mem_toFinset, List.mem_map]
  constructor
  · rintro ⟨d, hd, rfl⟩
    obtain ⟨i, hi, rfl⟩ := List.mem_iff_getElem.mp hd
    exact ⟨⟨i, hi⟩, rfl⟩
  · rintro ⟨i, rfl⟩
    exact ⟨_, List.getElem_mem i.isLt, rfl⟩

theorem threeApart_iff : h.ThreeApart ↔ 2 < (h.map Die.total).toFinset.card := by
  rw [Finset.two_lt_card_iff]
  constructor
  · rintro ⟨i, j, k, hij, hik, hjk⟩
    exact ⟨_, _, _, mem_totals_iff.mpr ⟨i, rfl⟩, mem_totals_iff.mpr ⟨j, rfl⟩,
      mem_totals_iff.mpr ⟨k, rfl⟩, hij, hik, hjk⟩
  · rintro ⟨a, b, c, ha, hb, hc, hab, hac, hbc⟩
    obtain ⟨i, rfl⟩ := mem_totals_iff.mp ha
    obtain ⟨j, rfl⟩ := mem_totals_iff.mp hb
    obtain ⟨k, rfl⟩ := mem_totals_iff.mp hc
    exact ⟨i, j, k, hab, hac, hbc⟩

end Hand

namespace Pool

variable {h : Hand}

theorem doubles_iff : doubles h = true ↔ ¬ h.ThreeApart := by
  rw [Hand.threeApart_iff, doubles, decide_eq_true_iff, length_eraseDups]
  exact Nat.lt_succ_iff.trans Nat.not_lt.symm

theorem twoAlike_of_doubles (hlen : stuntDice ≤ h.length) (hd : doubles h = true) :
    h.TwoAlike := by
  rw [doubles_iff, Hand.threeApart_iff] at hd
  rw [Hand.twoAlike_iff]
  intro hnodup
  rw [List.toFinset_card_of_nodup hnodup, List.length_map] at hd
  exact hd hlen

theorem doubles_of_twoAlike (hlen : h.length = stuntDice) (ht : h.TwoAlike) :
    doubles h = true := by
  rw [Hand.twoAlike_iff] at ht
  rw [doubles_iff, Hand.threeApart_iff]
  intro hcard
  have hlength : (h.map Die.total).length = 3 := (List.length_map ..).trans hlen
  exact ht (nodup_of_length_le (hlength ▸ hcard))

variable {p : Pool} {x : Since} {d : Dice}

theorem count_of_stunt (h : History p x) (hp : p.content = .stunt d) : d.count = stuntDice := by
  induction h generalizing d with
  | dice => cases hp
  | stunt =>
      cases hp
      rfl
  | @operated _ p _ _ _ _ hd _ _ _ _ hq ih =>
      obtain ⟨e, rfl, hcount, -⟩ := Operation.exists_of_run hd hq
      rcases p with ⟨source, value | d' | d'⟩
      · cases hd
      · cases hp
      · cases hp
        cases hd
        exact hcount.trans (ih rfl)

/-- A stunt has doubles as long as it does not show three different totals. With no more dice than
were drawn, these are two dice of the same total. -/
theorem stuntPoints?_of_history (h : History p x) (hp : p.content = .stunt d) :
    ∃ first rest, d.hand = first :: rest ∧ d.hand.length = 3 + x.inserted ∧
      p.stuntPoints? = (if doubles d.hand then some first.value else none) ∧
      (doubles d.hand = true ↔ ¬ d.hand.ThreeApart) ∧
      (doubles d.hand = true → d.hand.TwoAlike) ∧
      (x.inserted = 0 → (doubles d.hand = true ↔ d.hand.TwoAlike)) := by
  have hd : p.dice? = some d := by rw [dice?, hp]
  obtain ⟨e, he, hsound⟩ := sound_of_history h
  cases hd.symm.trans he
  have hlen := hsound.length_eq
  rw [count_of_stunt h hp] at hlen
  have hmore : stuntDice ≤ d.hand.length := hlen ▸ Nat.le_add_right ..
  obtain ⟨first, rest, hhand⟩ := List.exists_cons_of_length_pos (Nat.lt_of_lt_of_le
    (by decide : 0 < stuntDice) hmore)
  refine ⟨first, rest, hhand, hlen, ?_, doubles_iff, twoAlike_of_doubles hmore, fun hzero => ?_⟩
  · simp only [stuntPoints?, hp, handPoints?, hhand]
    rfl
  · rw [hzero] at hlen
    exact ⟨twoAlike_of_doubles hmore, doubles_of_twoAlike hlen⟩

theorem stuntPoints?_of_history_judged :
    let r := Roller.replay [6, 2, 5]
    let p := (stunt r "1d20" 0).1
    ∃ q d, Operation.run r p 3 (.countSuccesses [⟨.greaterEqual, 5⟩]) = .ok (q, 3) ∧
      History q { judged := true } ∧ q.content = .stunt d ∧
      d.hand.map Die.total = [1, 0, 1] ∧ doubles d.hand = true ∧ d.hand.TwoAlike ∧
      q.stuntPoints? = some 1 := by
  intro r p
  let d : Dice := { count := 3, faces := Faces.d6, hand := [.fresh 6, .fresh 2, .fresh 5] }
  have hdice : p.dice? = some d := rfl
  have hrun : Operation.run r p 3 (.countSuccesses [⟨.greaterEqual, 5⟩]) = .ok
      (p.withDice (d.countSuccesses [⟨.greaterEqual, 5⟩]), 3) := rfl
  have hq := History.operated (.stunt r "1d20" 0) hdice r (.countSuccesses _) hrun
  obtain ⟨first, rest, hhand, -, hpoints, -, halike, -⟩ := stuntPoints?_of_history hq rfl
  have htotals : (d.countSuccesses [⟨.greaterEqual, 5⟩]).hand.map Die.total = [1, 0, 1] := by
    decide +kernel
  have hdoubles : doubles (d.countSuccesses [⟨.greaterEqual, 5⟩]).hand = true := by
    rw [doubles, htotals]
    decide
  rw [if_pos hdoubles] at hpoints
  have hfirst : (d.countSuccesses [⟨.greaterEqual, 5⟩]).hand.head?.map Die.value = some 1 := by
    decide +kernel
  rw [hhand] at hfirst
  exact ⟨_, _, hrun, hq, rfl, htotals, hdoubles, halike hdoubles, hpoints.trans hfirst⟩

theorem stuntPoints?_of_exploded :
    let r := Roller.replay [6, 2, 5, 6]
    let p := (stunt r "3d6" 0).1
    ∃ q d, Operation.run r p 3 (.explode 1 []) = .ok (q, 4) ∧ History q { inserted := 1 } ∧
      q.content = .stunt d ∧ d.hand.map Die.value = [6, 6, 2, 5] ∧
      d.hand.TwoAlike ∧ doubles d.hand = false ∧ q.stuntPoints? = none := by
  intro r p
  let hand : Hand := [.fresh 6, .fresh 2, .fresh 5]
  let six : Die := ⟨6, true, ⟨[.exploded]⟩⟩
  let trigger := trigger [] (.equalTo Faces.d6.high)
  have hdice : p.dice? = some { count := 3, faces := Faces.d6, hand := hand } := rfl
  have hexploded : hand.explode r Faces.d6 1 trigger 3 = ([six, six, .fresh 2, .fresh 5], 4) := by
    decide +kernel
  have hinserted : hand.inserted r Faces.d6 1 trigger 3 = 1 := by decide +kernel
  have hrun := changeFrom_of_dice hdice (Dice.explode r 1 []) 3
  simp only [Dice.explode, trigger, hexploded] at hrun
  have hq := History.operated (.stunt r "3d6" 0) hdice r (.explode 1 []) hrun
  simp only [Operation.since, Dice.inserts, Dice.default, trigger, hinserted] at hq
  exact ⟨_, _, hrun, hq, rfl, rfl, ⟨⟨0, by decide⟩, ⟨1, by decide⟩, by decide, rfl⟩, by decide,
    by decide⟩

end Pool

end DiceTray
