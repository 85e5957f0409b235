import DiceTray.Hand

namespace DiceTray.Hand

def outranks (a b : Int64 × Nat) : Bool := b.1 < a.1 || (a.1 == b.1 && a.2 ≤ b.2)

def ranking (vs : List Int64) : List Nat := (vs.zipIdx.mergeSort outranks).map (·.2)

def ranks (vs : List Int64) : List Nat :=
  ((ranking vs).zipIdx.mergeSort fun a b => a.1 ≤ b.1).map (·.2)

theorem length_ranking (vs : List Int64) : (ranking vs).length = vs.length := by
  simp [ranking]

theorem length_ranks (vs : List Int64) : (ranks vs).length = vs.length := by
  simp [ranks, length_ranking]

def dropWhere (p : Nat → Bool) (h : Hand) : Hand :=
  h.zipWith (fun d rank => if p rank then d.drop else d) (ranks h.values)

def keepHigh (n : Nat) (h : Hand) : Hand := h.dropWhere fun rank => n ≤ rank

def keepLow (n : Nat) (h : Hand) : Hand :=
  let others := h.length - n
  h.dropWhere fun rank => rank < others

theorem length_dropWhere (p : Nat → Bool) (h : Hand) : (h.dropWhere p).length = h.length := by
  simp [dropWhere, length_ranks, values]

theorem values_dropWhere (p : Nat → Bool) (h : Hand) : (h.dropWhere p).values = h.values := by
  have key : ∀ (h : Hand) (rs : List Nat), rs.length = h.length →
      (h.zipWith (fun d rank => if p rank then d.drop else d) rs).map Die.value
        = h.map Die.value := by
    intro h
    induction h with
    | nil => intro rs _; simp
    | cons d h ih =>
        intro rs hrs
        cases rs with
        | nil => simp at hrs
        | cons r rs =>
            simp only [List.zipWith_cons_cons, List.map_cons]
            rw [ih rs (by simpa using hrs)]
            split <;> rfl
  exact key h _ (by simp [length_ranks, values])

end DiceTray.Hand
