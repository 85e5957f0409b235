import DiceTray.Proofs.Hand.Kept
import Mathlib.Data.Finset.BooleanAlgebra
import Mathlib.Data.Fintype.EquivFin
import Mathlib.Data.Fintype.Fin
import Mathlib.Order.Interval.Finset.Fin

namespace DiceTray

theorem Die.drop_eq (d : Die) :
    d.drop = ⟨d.value, false,
      ⟨if .dropped ∈ d.marks.toList then d.marks.toList else d.marks.toList ++ [.dropped]⟩⟩ := by
  by_cases h : .dropped ∈ d.marks.toList <;> simp [drop, mark, Marks.add, Marks.has, h]

namespace Hand

def allButHighest (n : Nat) (h : Hand) : Finset (Fin h.length) :=
  Finset.univ.filter fun i => n ≤ rank h.values i h[i].value

def allButLowest (n : Nat) (h : Hand) : Finset (Fin h.length) :=
  Finset.univ.filter fun i => rank h.values i h[i].value < h.length - n

def dropPlaces (h : Hand) (places : Finset (Fin h.length)) : Hand :=
  List.ofFn fun i =>
    let marks := h[i].marks.toList
    if i ∈ places then
      ⟨h[i].value, false, ⟨if .dropped ∈ marks then marks else marks ++ [.dropped]⟩⟩
    else h[i]

structure DroppedAt (h : Hand) (places : Finset (Fin h.length)) (after : Hand) : Prop where
  length_eq : after.length = h.length
  dropped : ∀ i ∈ places, ∃ d, after[(i : Nat)]? = some d ∧ d.value = h[i].value ∧
    d.counts = false ∧ .dropped ∈ d.marks.toList ∧
    d.marks.toList.filter (· ≠ .dropped) = h[i].marks.toList.filter (· ≠ .dropped)
  unchanged : ∀ i ∉ places, after[(i : Nat)]? = some h[i]

variable {h : Hand} {n : Nat} {i j : Fin h.length}

theorem getElem?_fin (h : Hand) (i : Fin h.length) : h[(i : Nat)]? = some h[i] :=
  List.getElem?_eq_getElem i.isLt

theorem mem_allButHighest : i ∈ h.allButHighest n ↔ n ≤ rank h.values i h[i].value := by
  simp [allButHighest]

theorem mem_allButLowest :
    i ∈ h.allButLowest n ↔ rank h.values i h[i].value < h.length - n := by
  simp [allButLowest]

theorem getElem?_dropPlaces (h : Hand) (places : Finset (Fin h.length)) (i : Fin h.length) :
    (h.dropPlaces places)[(i : Nat)]? = some (if i ∈ places then h[i].drop else h[i]) := by
  simp [dropPlaces, Die.drop_eq]

theorem droppedAt_dropPlaces (h : Hand) (places : Finset (Fin h.length)) :
    DroppedAt h places (h.dropPlaces places) := by
  refine ⟨List.length_ofFn, fun i hi => ?_, fun i hi => ?_⟩
  · have hd := getElem?_dropPlaces h places i
    rw [if_pos hi, Die.drop_eq] at hd
    refine ⟨_, hd, rfl, rfl, ?_, ?_⟩
    · simp only
      split
      case isTrue hmem => exact hmem
      case isFalse => simp
    · simp only
      split <;> simp
  · rw [getElem?_dropPlaces, if_neg hi]

theorem dropWhere_eq_dropPlaces {p : Nat → Bool} {places : Finset (Fin h.length)}
    (hp : ∀ i, i ∈ places ↔ p (rank h.values i h[i].value) = true) :
    h.dropWhere p = h.dropPlaces places := by
  refine List.ext_getElem? fun k => ?_
  rcases Nat.lt_or_ge k h.length with hk | hk
  · have hd := getElem?_fin h ⟨k, hk⟩
    rw [getElem?_dropWhere p hd, getElem?_dropPlaces h places ⟨k, hk⟩]
    simp only [hp]
  · rw [List.getElem?_eq_none (by rwa [length_dropWhere]),
      List.getElem?_eq_none (by simpa [dropPlaces] using hk)]

theorem keepHigh_eq_dropPlaces (n : Nat) (h : Hand) :
    h.keepHigh n = h.dropPlaces (h.allButHighest n) :=
  dropWhere_eq_dropPlaces fun _ => mem_allButHighest.trans decide_eq_true_iff.symm

theorem keepLow_eq_dropPlaces (n : Nat) (h : Hand) :
    h.keepLow n = h.dropPlaces (h.allButLowest n) :=
  dropWhere_eq_dropPlaces fun _ => mem_allButLowest.trans decide_eq_true_iff.symm

theorem rank_injective (h : Hand) :
    Function.Injective fun i : Fin h.length =>
      (⟨rank h.values i h[i].value, rank_lt (getElem?_fin h i)⟩ : Fin h.length) := by
  intro i j hij
  have hi := getElem?_ranking (getElem?_values (getElem?_fin h i))
  have hj := getElem?_ranking (getElem?_values (getElem?_fin h j))
  have hij : rank h.values i h[i].value = rank h.values j h[j].value := Fin.ext_iff.mp hij
  rw [hij, hj] at hi
  exact Fin.ext (Option.some.inj hi).symm

theorem card_rank_lt (h : Hand) (m : Nat) :
    (Finset.univ.filter fun i : Fin h.length => rank h.values i h[i].value < m).card =
      min h.length m := by
  let place := Equiv.ofBijective _ (Finite.injective_iff_bijective.mp (rank_injective h))
  rw [← Fin.card_filter_val_lt]
  exact Finset.card_equiv place fun i => by simp [place]

theorem allButLowest_eq_compl (n : Nat) (h : Hand) :
    h.allButLowest (h.length - n) = (h.allButHighest n)ᶜ := by
  ext i
  have hlt := rank_lt (getElem?_fin h i)
  rw [Finset.mem_compl, mem_allButLowest, mem_allButHighest]
  omega

theorem card_allButLowest (n : Nat) (h : Hand) : (h.allButLowest n).card = h.length - n := by
  rw [allButLowest, card_rank_lt]
  exact Nat.min_eq_right (Nat.sub_le ..)

theorem card_allButHighest (n : Nat) (h : Hand) : (h.allButHighest n).card = h.length - n := by
  have hcompl : (h.allButHighest n).card + (h.allButHighest n)ᶜ.card = h.length := by
    rw [Finset.card_add_card_compl, Fintype.card_fin]
  rw [← allButLowest_eq_compl, card_allButLowest] at hcompl
  omega

theorem precedes_of_rank_lt {vs : List Int64} {i j : Nat} {v w : Int64}
    (h : rank vs i v < rank vs j w) : precedes (v, i) (w, j) = true := by
  by_contra hn
  refine absurd (List.countP_mono_left fun x _ hx => ?_) (Nat.not_le_of_lt h)
  simp only [precedes_iff] at hn hx ⊢
  omega

theorem value_le_of_rank_lt {vs : List Int64} {i j : Nat} {v w : Int64}
    (h : rank vs i v < rank vs j w) : w ≤ v := by
  rw [Int64.le_iff_toInt_le]
  rcases precedes_iff.mp (precedes_of_rank_lt h) with hlt | ⟨heq, -⟩
  · exact Int.le_of_lt hlt
  · exact Int.le_of_eq heq.symm

theorem counts_dropPlaces (places : Finset (Fin h.length)) (hi : h[i].counts = false) :
    (h.dropPlaces places)[(i : Nat)]?.map Die.counts = some false := by
  rw [getElem?_dropPlaces, Option.map_some]
  split
  · rfl
  · rw [hi]

theorem keep_eq_dropPlaces (h : Hand) (n : Nat) :
    h.keepHigh n = h.dropPlaces (h.allButHighest n) ∧
      h.keepLow n = h.dropPlaces (h.allButLowest n) ∧
      DroppedAt h (h.allButHighest n) (h.keepHigh n) ∧
      DroppedAt h (h.allButLowest n) (h.keepLow n) ∧
      h.allButLowest (h.length - n) = (h.allButHighest n)ᶜ ∧
      (h.allButHighest n).card = h.length - n ∧ (h.allButLowest n).card = h.length - n ∧
      (∀ i ∉ h.allButHighest n, ∀ j ∈ h.allButHighest n, h[j].value ≤ h[i].value) ∧
      (∀ i ∉ h.allButLowest n, ∀ j ∈ h.allButLowest n, h[i].value ≤ h[j].value) ∧
      ∀ i : Fin h.length, h[i].counts = false →
        (h.keepHigh n)[(i : Nat)]?.map Die.counts = some false ∧
          (h.keepLow n)[(i : Nat)]?.map Die.counts = some false := by
  refine ⟨keepHigh_eq_dropPlaces n h, keepLow_eq_dropPlaces n h, ?_, ?_,
    allButLowest_eq_compl n h, card_allButHighest n h, card_allButLowest n h,
    fun i hi j hj => ?_, fun i hi j hj => ?_, fun i hi => ⟨?_, ?_⟩⟩
  · rw [keepHigh_eq_dropPlaces]
    exact droppedAt_dropPlaces h _
  · rw [keepLow_eq_dropPlaces]
    exact droppedAt_dropPlaces h _
  · rw [mem_allButHighest] at hi hj
    exact value_le_of_rank_lt (Nat.lt_of_lt_of_le (Nat.lt_of_not_le hi) hj)
  · rw [mem_allButLowest] at hi hj
    exact value_le_of_rank_lt (Nat.lt_of_lt_of_le hj (Nat.le_of_not_lt hi))
  · rw [keepHigh_eq_dropPlaces]
    exact counts_dropPlaces _ hi
  · rw [keepLow_eq_dropPlaces]
    exact counts_dropPlaces _ hi

theorem keep_eq_dropPlaces_tie :
    let h : Hand := [⟨4, true, ⟨[.exploded]⟩⟩, ⟨4, true, ⟨[]⟩⟩, ⟨2, false, ⟨[.dropped, .rerolled]⟩⟩,
      ⟨6, true, ⟨[]⟩⟩]
    let i : Fin h.length := ⟨0, by decide⟩
    let j : Fin h.length := ⟨1, by decide⟩
    let k : Fin h.length := ⟨2, by decide⟩
    i ∉ h.allButHighest 2 ∧ j ∈ h.allButHighest 2 ∧ i ∈ h.allButLowest 2 ∧
      j ∉ h.allButLowest 2 ∧ h[k].counts = false ∧
      h.keepHigh 2 = [⟨4, true, ⟨[.exploded]⟩⟩, ⟨4, false, ⟨[.dropped]⟩⟩,
        ⟨2, false, ⟨[.dropped, .rerolled]⟩⟩, ⟨6, true, ⟨[]⟩⟩] ∧
      h.keepLow 2 = [⟨4, false, ⟨[.exploded, .dropped]⟩⟩, ⟨4, true, ⟨[]⟩⟩,
        ⟨2, false, ⟨[.dropped, .rerolled]⟩⟩, ⟨6, false, ⟨[.dropped]⟩⟩] ∧
      (∃ d, (h.keepLow 2)[(i : Nat)]? = some d ∧ d.value = 4 ∧ d.counts = false ∧
        .dropped ∈ d.marks.toList ∧ d.marks.toList.filter (· ≠ .dropped) = [.exploded]) ∧
      h[j].value ≤ h[i].value ∧ (h.keepLow 2)[(k : Nat)]?.map Die.counts = some false := by
  intro h i j k
  obtain ⟨hhigh, hlow, -, hdropped, -, -, -, hhighest, -, hcounts⟩ := keep_eq_dropPlaces h 2
  have hi : i ∉ h.allButHighest 2 := by decide
  have hj : j ∈ h.allButHighest 2 := by decide
  have hi' : i ∈ h.allButLowest 2 := by decide
  have hk : h[k].counts = false := rfl
  refine ⟨hi, hj, hi', by decide, hk, ?_, ?_, hdropped.dropped i hi', hhighest i hi j hj,
    (hcounts k hk).2⟩
  · rw [hhigh]
    decide
  · rw [hlow]
    decide

end Hand

end DiceTray
