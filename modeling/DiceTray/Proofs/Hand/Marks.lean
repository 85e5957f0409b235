import DiceTray.Proofs.Hand.Kept

namespace DiceTray

namespace Marks

theorem has_eq_false {ms : Marks} {m : Mark} : ms.has m = false ↔ m ∉ ms.toList := by
  simp [has]

theorem add_add (ms : Marks) (m : Mark) : (ms.add m).add m = ms.add m := by
  have hm : (ms.add m).has m = true := by simpa [has] using mem_add.mpr (.inr rfl)
  generalize ms.add m = ns at hm ⊢
  rw [add, if_pos hm]

theorem sublist_add {ms : Marks} {l : List Mark} {m : Mark}
    (h : ms.toList.Sublist (l ++ [m])) : (ms.add m).toList.Sublist (l ++ [m]) := by
  unfold add
  split
  case isTrue => exact h
  case isFalse hm =>
      rw [Bool.not_eq_true, has_eq_false] at hm
      obtain ⟨front, back, he, hfront, hback⟩ := List.sublist_append_iff.mp h
      rcases List.sublist_singleton.mp hback with rfl | rfl
      · rw [List.append_nil] at he
        exact he ▸ hfront.append_right [m]
      · exact absurd (he ▸ by simp) hm

end Marks

namespace Die

structure Sound (judged : Bool) (d : Die) : Prop where
  nodup : d.marks.toList.Nodup
  not_counts : .dropped ∈ d.marks.toList → d.counts = false
  counts : judged = false → .dropped ∉ d.marks.toList → d.counts = true

variable {judged : Bool} {d : Die} {m : Mark}

theorem sound_fresh (judged : Bool) (v : Int64) : Sound judged (fresh v) :=
  ⟨List.nodup_nil, nofun, fun _ _ => rfl⟩

theorem Sound.drop (h : Sound judged d) : Sound judged d.drop := by
  have hdropped : .dropped ∈ d.drop.marks.toList := Marks.mem_add.mpr (.inr rfl)
  exact ⟨Marks.nodup_add h.nodup _, fun _ => rfl, fun _ hn => absurd hdropped hn⟩

theorem Sound.mark (h : Sound judged d) (hm : m ≠ .dropped) : Sound judged (d.mark m) := by
  have hdropped : .dropped ∈ (d.marks.add m).toList ↔ .dropped ∈ d.marks.toList := by
    rw [Marks.mem_add, or_iff_left hm.symm]
  refine ⟨Marks.nodup_add h.nodup m, fun hd => h.not_counts (hdropped.mp hd), fun hj hd => ?_⟩
  exact h.counts hj fun hn => hd (hdropped.mpr hn)

theorem Sound.withValue (h : Sound judged d) (v : Int64) : Sound judged { d with value := v } :=
  ⟨h.nodup, h.not_counts, h.counts⟩

theorem Sound.judge (h : Sound judged d) (conditions : List Condition) :
    Sound true (Hand.judge conditions d) := by
  have hd : Sound true d := ⟨h.nodup, h.not_counts, nofun⟩
  unfold Hand.judge
  split
  · exact (hd.withValue (-1)).mark (by decide)
  · split
    · exact (hd.withValue 1).mark (by decide)
    · exact ⟨hd.nodup, fun _ => rfl, nofun⟩

end Die

namespace Hand

variable {σ : Type} {P : Die → Prop} {hand : Hand}

theorem forall_mem_dropWhere (hP : ∀ d, P d → P d.drop) (h : ∀ d ∈ hand, P d) (p : Nat → Bool) :
    ∀ d ∈ hand.dropWhere p, P d := by
  intro e he
  obtain ⟨i, hi⟩ := List.mem_iff_getElem?.mp he
  obtain ⟨d, hd, rfl⟩ := exists_of_getElem?_dropWhere hi
  have hd := h d (List.mem_of_getElem? hd)
  split
  · exact hP d hd
  · exact hd

section Reroll

variable {batch : List (Bool × Die)} (r : Roller σ) (faces : Faces)

theorem forall_mem_redraw
    (hP : ∀ (d : Die) (v : Int64), P d → P ({ d with value := v }.mark .rerolled))
    (h : ∀ x ∈ batch, P x.2) (s : σ) : ∀ x ∈ (redraw r faces batch s).1, P x.2 := by
  induction batch generalizing s with
  | nil => exact h
  | cons x batch ih =>
      obtain ⟨hx, hbatch⟩ := List.forall_mem_cons.mp h
      obtain ⟨chosen, d⟩ := x
      cases chosen with
      | false => exact List.forall_mem_cons.mpr ⟨hx, ih hbatch s⟩
      | true => exact List.forall_mem_cons.mpr ⟨hP d _ hx, ih hbatch _⟩

theorem length_redraw (batch : List (Bool × Die)) (s : σ) :
    (redraw r faces batch s).1.length = batch.length := by
  induction batch generalizing s with
  | nil => rfl
  | cons x batch ih =>
      obtain ⟨chosen, d⟩ := x
      cases chosen <;> exact congrArg (· + 1) (ih _)

theorem redrawWhile_invariant {Q : List (Bool × Die) → Prop}
    (hQ : ∀ batch s, Q batch → Q (redraw r faces batch s).1) (trigger : List Condition)
    (times : Nat) (h : Q batch) (s : σ) : Q (redrawWhile r faces trigger times batch s).1 := by
  induction times generalizing batch s with
  | zero => exact h
  | succ times ih =>
      unfold redrawWhile
      split
      · exact ih (hQ batch s h) _
      · exact h

theorem forall_mem_reroll
    (hP : ∀ (d : Die) (v : Int64), P d → P ({ d with value := v }.mark .rerolled))
    (h : ∀ d ∈ hand, P d) (times : Nat) (trigger : List Condition) (s : σ) :
    ∀ d ∈ (hand.reroll r faces times trigger s).1, P d := by
  have hbatch : ∀ x ∈ hand.map fun d => (fires trigger d.value, d), P x.2 :=
    List.forall_mem_map.mpr h
  have hround := redrawWhile_invariant r faces (Q := fun b => ∀ x ∈ b, P x.2)
    (fun b s hb => forall_mem_redraw r faces hP hb s) trigger times hbatch s
  exact List.forall_mem_map.mpr hround

theorem length_reroll (hand : Hand) (times : Nat) (trigger : List Condition) (s : σ) :
    (hand.reroll r faces times trigger s).1.length = hand.length := by
  have hstart : (hand.map fun d => (fires trigger d.value, d)).length = hand.length :=
    List.length_map ..
  have hround := redrawWhile_invariant r faces (Q := fun b => b.length = hand.length)
    (fun b s hb => (length_redraw r faces b s).trans hb) trigger times hstart s
  rw [reroll, List.length_map]
  exact hround

end Reroll

section Explode

variable (r : Roller σ) (faces : Faces) (times : Nat) (trigger : List Condition)

theorem forall_mem_expand {join : Die → List Int64 → Hand}
    (hjoin : ∀ d vs, P d → ∀ e ∈ join d vs, P e) (h : ∀ d ∈ hand, P d) (s : σ) :
    ∀ d ∈ (expand r faces times trigger join hand s).1, P d := by
  induction hand generalizing s with
  | nil => exact h
  | cons d hand ih =>
      obtain ⟨hd, hhand⟩ := List.forall_mem_cons.mp h
      exact List.forall_mem_append.mpr ⟨hjoin d _ hd, ih hhand _⟩

theorem forall_mem_explode (hP : ∀ d, P d → P (d.mark .exploded))
    (hnew : ∀ v, P ((Die.fresh v).mark .exploded)) (h : ∀ d ∈ hand, P d) (s : σ) :
    ∀ d ∈ (hand.explode r faces times trigger s).1, P d := by
  refine forall_mem_expand r faces times trigger (fun d vs hd => ?_) h s
  cases vs with
  | nil => exact List.forall_mem_singleton.mpr hd
  | cons v vs =>
      exact List.forall_mem_cons.mpr ⟨hP d hd, List.forall_mem_map.mpr fun v _ => hnew v⟩

theorem forall_mem_explodeInto
    (hP : ∀ (d : Die) (v : Int64), P d → P ({ d with value := v }.mark .exploded))
    (h : ∀ d ∈ hand, P d) (s : σ) : ∀ d ∈ (hand.explodeInto r faces times trigger s).1, P d := by
  refine forall_mem_expand r faces times trigger (fun d vs hd => ?_) h s
  cases vs with
  | nil => exact List.forall_mem_singleton.mpr hd
  | cons v vs => exact List.forall_mem_singleton.mpr (hP d _ hd)

def inserted : Hand → σ → Nat
  | [], _ => 0
  | d :: rest, s =>
      let (vs, s) := chain r faces trigger times d.value s
      vs.length + inserted rest s

theorem length_joinBeside (d : Die) (vs : List Int64) :
    (joinBeside d vs).length = vs.length + 1 := by
  cases vs <;> simp [joinBeside]

theorem length_joinInto (d : Die) (vs : List Int64) : (joinInto d vs).length = 1 := by
  cases vs <;> rfl

theorem length_explode (hand : Hand) (s : σ) :
    (hand.explode r faces times trigger s).1.length =
      hand.length + hand.inserted r faces times trigger s := by
  induction hand generalizing s with
  | nil => rfl
  | cons d hand ih =>
      have ih := ih (chain r faces trigger times d.value s).2
      simp only [explode, expand, inserted, List.length_append, List.length_cons,
        length_joinBeside] at ih ⊢
      omega

theorem length_explodeInto (hand : Hand) (s : σ) :
    (hand.explodeInto r faces times trigger s).1.length = hand.length := by
  induction hand generalizing s with
  | nil => rfl
  | cons d hand ih =>
      have ih := ih (chain r faces trigger times d.value s).2
      simp only [explodeInto, expand, List.length_append, List.length_cons,
        length_joinInto] at ih ⊢
      omega

end Explode

theorem length_countSuccesses (conditions : List Condition) (hand : Hand) :
    (hand.countSuccesses conditions).length = hand.length := by
  unfold countSuccesses
  split
  · rfl
  · exact List.length_map ..

end Hand

end DiceTray
