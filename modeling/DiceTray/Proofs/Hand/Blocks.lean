import DiceTray.Proofs.Hand.Places
import DiceTray.Proofs.Hand.Total
import Mathlib.Data.List.Forall2
import Mathlib.Data.List.Infix

namespace DiceTray

namespace Roller

variable {σ : Type} {r : Roller σ} {faces : Faces} {s s' : σ} {v : Int64} {vs ws : List Int64}

/-- These values, and no others, are drawn on the way from one state to another. -/
def Draws (r : Roller σ) (faces : Faces) (s : σ) (vs : List Int64) (s' : σ) : Prop :=
  drawEach r.draw faces vs.length s = (vs, s')

theorem draws_drawEach (r : Roller σ) (faces : Faces) (n : Nat) (s : σ) :
    let drawn := drawEach r.draw faces n s
    r.Draws faces s drawn.1 drawn.2 := by
  intro drawn
  rw [Draws, length_drawEach]

theorem draws_nil_iff : r.Draws faces s [] s' ↔ s = s' := by
  simp [Draws, drawEach]

theorem draws_cons_iff :
    r.Draws faces s (v :: vs) s' ↔
      (r.draw faces s).1 = v ∧ r.Draws faces (r.draw faces s).2 vs s' := by
  simp [Draws, drawEach, Prod.ext_iff, and_assoc]

theorem draws_append_iff :
    r.Draws faces s (vs ++ ws) s' ↔ ∃ t, r.Draws faces s vs t ∧ r.Draws faces t ws s' := by
  induction vs generalizing s with
  | nil => simp [draws_nil_iff]
  | cons v vs ih => simp [draws_cons_iff, ih, and_assoc]

def fixed (r : Roller σ) (faces : Faces) : Roller σ where
  draw _ := r.draw faces
  drawMany _ := r.drawMany faces
  length_drawMany _ := r.length_drawMany faces

theorem draws_fixed_iff (faces' : Faces) :
    (r.fixed faces).Draws faces' s vs s' ↔ r.Draws faces s vs s' := by
  induction vs generalizing s with
  | nil => rw [draws_nil_iff, draws_nil_iff]
  | cons v vs ih =>
      rw [draws_cons_iff, draws_cons_iff, ih]
      rfl

end Roller

namespace Hand

section Chain

variable {σ : Type} {r : Roller σ} {faces : Faces} {trigger : List Condition} {times : Nat}
  {v last : Int64} {vs : List Int64} {s s' : σ}

inductive IsChain (trigger : List Condition) : Nat → Int64 → List Int64 → Prop where
  | done {times : Nat} {v : Int64} (h : fires trigger v = false ∨ times = 0) :
      IsChain trigger times v []
  | next {times : Nat} {v w : Int64} {vs : List Int64} (h : fires trigger v = true)
      (rest : IsChain trigger times w vs) : IsChain trigger (times + 1) v (w :: vs)

theorem isChain_chain (r : Roller σ) (faces : Faces) (trigger : List Condition) (times : Nat)
    (v : Int64) (s : σ) :
    let made := chain r faces trigger times v s
    IsChain trigger times v made.1 ∧ r.Draws faces s made.1 made.2 := by
  induction times generalizing v s with
  | zero => exact ⟨.done (.inr rfl), rfl⟩
  | succ times ih =>
      rw [chain]
      split
      case isTrue hv =>
          obtain ⟨hchain, hdraws⟩ := ih (r.draw faces s).1 (r.draw faces s).2
          exact ⟨.next hv hchain, Roller.draws_cons_iff.mpr ⟨rfl, hdraws⟩⟩
      case isFalse hv => exact ⟨.done (.inl (Bool.not_eq_true _ ▸ hv)), rfl⟩

theorem IsChain.chain_eq (h : IsChain trigger times v vs) (hd : r.Draws faces s vs s') :
    chain r faces trigger times v s = (vs, s') := by
  induction h generalizing s with
  | @done times v h =>
      cases Roller.draws_nil_iff.mp hd
      cases times with
      | zero => rfl
      | succ times =>
          have hv : fires trigger v = false := h.resolve_right (Nat.succ_ne_zero times)
          rw [chain, hv]
          rfl
  | next h _ ih =>
      obtain ⟨rfl, hrest⟩ := Roller.draws_cons_iff.mp hd
      simp only [chain, if_pos h, ih hrest]

theorem isChain_concat (hfires : fires trigger v = true)
    (hmatch : ∀ w ∈ vs, fires trigger w = true) (hle : vs.length + 1 ≤ times)
    (hend : vs.length + 1 = times ∨ fires trigger last = false) :
    IsChain trigger times v (vs ++ [last]) := by
  -- as one value is brought in, the times are a successor, here and in each step of the induction
  obtain ⟨times, rfl⟩ := Nat.exists_eq_add_of_le' (Nat.le_trans (Nat.le_add_left 1 _) hle)
  induction vs generalizing v times with
  | nil => exact .next hfires (.done (hend.symm.imp_right fun h => (Nat.succ.inj h).symm))
  | cons w vs ih =>
      obtain ⟨hw, hvs⟩ := List.forall_mem_cons.mp hmatch
      obtain ⟨times, rfl⟩ := Nat.exists_eq_add_of_le' (Nat.le_trans (Nat.le_add_left 1 _)
        (Nat.le_of_succ_le_succ hle))
      exact .next hfires (ih hw hvs times (Nat.le_of_succ_le_succ hle) (hend.imp_left Nat.succ.inj))

theorem IsChain.exists_concat {w : Int64} (h : IsChain trigger times v (w :: vs)) :
    ∃ front last, w :: vs = front ++ [last] ∧ fires trigger v = true ∧
      (∀ u ∈ front, fires trigger u = true) ∧ front.length + 1 ≤ times ∧
      (front.length + 1 = times ∨ fires trigger last = false) := by
  induction vs generalizing times v w with
  | nil =>
      obtain _ | ⟨hv, hend⟩ := h
      obtain hend | _ := hend
      refine ⟨[], w, rfl, hv, nofun, Nat.le_add_left .., ?_⟩
      exact hend.symm.imp_left fun h => congrArg Nat.succ h.symm
  | cons u vs ih =>
      obtain _ | ⟨hv, hrest⟩ := h
      obtain ⟨front, last, heq, hw, hmatch, hle, hend⟩ := ih hrest
      refine ⟨w :: front, last, by rw [heq]; rfl, hv, List.forall_mem_cons.mpr ⟨hw, hmatch⟩,
        Nat.succ_le_succ hle, hend.imp_left (congrArg Nat.succ)⟩

end Chain

section Block

/-- What an explosion makes of one die: the die as it was, or the die and the new ones behind it, of
which all but the last fire. -/
inductive Block (trigger : List Condition) (times : Nat) (d : Die) : Hand → Prop where
  | same (h : fires trigger d.value = false ∨ times = 0) : Block trigger times d [d]
  | chain {vs : List Int64} {last : Int64} (hfires : fires trigger d.value = true)
      (hmatch : ∀ v ∈ vs, fires trigger v = true) (hle : vs.length + 1 ≤ times)
      (hend : vs.length + 1 = times ∨ fires trigger last = false) :
      Block trigger times d ({ d with marks := d.marks.add .exploded } ::
        (vs ++ [last]).map fun v => ⟨v, true, ⟨[.exploded]⟩⟩)

def added (b : Hand) : List Int64 := values b.tail

def merged : Hand → Hand
  | [] => []
  | d :: rest => [{ d with value := (values rest).foldl saturatingAdd d.value }]

variable {σ : Type} {r : Roller σ} {faces : Faces} {trigger : List Condition} {times : Nat}
  {d : Die} {b h : Hand} {bs : List Hand} {vs : List Int64} {s s' : σ}

theorem added_joinBeside (d : Die) (vs : List Int64) : added (joinBeside d vs) = vs := by
  cases vs with
  | nil => rfl
  | cons v vs =>
      change v :: (vs.map _).map Die.value = v :: vs
      rw [List.map_map]
      exact congrArg (v :: ·) (List.map_id vs)

theorem merged_joinBeside (d : Die) (vs : List Int64) :
    merged (joinBeside d vs) = joinInto d vs := by
  have hadded := added_joinBeside d vs
  cases vs with
  | nil => rfl
  | cons v vs =>
      simp only [joinBeside, added, List.tail_cons] at hadded
      simp only [joinBeside, merged, hadded]
      rfl

theorem block_joinBeside (h : IsChain trigger times d.value vs) :
    Block trigger times d (joinBeside d vs) := by
  cases vs with
  | nil =>
      obtain hend | _ := h
      exact .same hend
  | cons v vs =>
      obtain ⟨front, last, heq, hfires, hmatch, hle, hend⟩ := h.exists_concat
      have hblock := Block.chain (d := d) hfires hmatch hle hend
      rw [← heq] at hblock
      exact hblock

theorem Block.exists_chain (h : Block trigger times d b) :
    ∃ vs, IsChain trigger times d.value vs ∧ b = joinBeside d vs := by
  cases h with
  | same h => exact ⟨[], .done h, rfl⟩
  | @chain vs last hfires hmatch hle hend =>
      refine ⟨vs ++ [last], isChain_concat hfires hmatch hle hend, ?_⟩
      cases vs <;> rfl

def blocks (r : Roller σ) (faces : Faces) (times : Nat) (trigger : List Condition) :
    Hand → σ → List Hand × σ
  | [], s => ([], s)
  | d :: rest, s =>
      let (vs, s) := chain r faces trigger times d.value s
      let (bs, s) := blocks r faces times trigger rest s
      (joinBeside d vs :: bs, s)

theorem forall₂_blocks (r : Roller σ) (faces : Faces) (times : Nat) (trigger : List Condition)
    (h : Hand) (s : σ) :
    let made := h.blocks r faces times trigger s
    List.Forall₂ (Block trigger times) h made.1 ∧
      r.Draws faces s (made.1.flatMap added) made.2 := by
  induction h generalizing s with
  | nil => exact ⟨.nil, rfl⟩
  | cons d h ih =>
      obtain ⟨hchain, hvs⟩ := isChain_chain r faces trigger times d.value s
      obtain ⟨hbs, hrest⟩ := ih (chain r faces trigger times d.value s).2
      refine ⟨.cons (block_joinBeside hchain) hbs, ?_⟩
      simp only [blocks, List.flatMap_cons, added_joinBeside]
      exact Roller.draws_append_iff.mpr ⟨_, hvs, hrest⟩

theorem explosions_of_blocks (hbs : List.Forall₂ (Block trigger times) h bs)
    (hd : r.Draws faces s (bs.flatMap added) s') :
    h.explode r faces times trigger s = (bs.flatten, s') ∧
      h.explodeInto r faces times trigger s = (bs.flatMap merged, s') := by
  unfold explode explodeInto
  induction hbs generalizing s with
  | nil =>
      cases Roller.draws_nil_iff.mp hd
      exact ⟨rfl, rfl⟩
  | cons hb _ ih =>
      obtain ⟨vs, hchain, rfl⟩ := hb.exists_chain
      rw [List.flatMap_cons, added_joinBeside] at hd
      obtain ⟨t, hvs, hrest⟩ := Roller.draws_append_iff.mp hd
      obtain ⟨hbeside, hinto⟩ := ih hrest
      rw [List.flatMap_cons, merged_joinBeside]
      simp only [expand, hchain.chain_eq hvs, hbeside, hinto, List.flatten_cons, and_self]

theorem Block.length_eq (hb : Block trigger times d b) : b.length = 1 + (added b).length := by
  cases hb <;> simp [added, values, Nat.add_comm]

theorem length_flatten_of_blocks (hbs : List.Forall₂ (Block trigger times) h bs) :
    bs.flatten.length = h.length + (bs.flatMap added).length := by
  induction hbs with
  | nil => rfl
  | cons hb _ ih =>
      rw [List.flatten_cons, List.flatMap_cons, List.length_append, List.length_append, ih,
        hb.length_eq, List.length_cons]
      omega

theorem explosions_eq (r : Roller σ) (faces : Faces) (times : Nat) (trigger : List Condition)
    (h : Hand) (s : σ) :
    let made := h.blocks r faces times trigger s
    h.explode r faces times trigger s = (made.1.flatten, made.2) ∧
      h.explodeInto r faces times trigger s = (made.1.flatMap merged, made.2) := by
  obtain ⟨hbs, hd⟩ := forall₂_blocks r faces times trigger h s
  exact explosions_of_blocks hbs hd

theorem explode_fixed (faces' : Faces) :
    h.explode (r.fixed faces) faces' times trigger s = h.explode r faces times trigger s := by
  obtain ⟨hbs, hd⟩ := forall₂_blocks r faces times trigger h s
  rw [(explosions_of_blocks hbs hd).1,
    (explosions_of_blocks hbs ((Roller.draws_fixed_iff faces').mpr hd)).1]

theorem explode_eq_blocks (r : Roller σ) (faces : Faces) (times : Nat) (trigger : List Condition)
    (h : Hand) (s : σ) :
    (∀ g s', h.explode r faces times trigger s = (g, s') ↔
      ∃ bs, List.Forall₂ (Block trigger times) h bs ∧ g = bs.flatten ∧
        r.Draws faces s (bs.flatMap added) s' ∧
        g.length = h.length + (bs.flatMap added).length) ∧
      explode? (r.fixed faces) Faces.d6 trigger times h s =
        some (h.explode r faces times trigger s) := by
  refine ⟨fun g s' => ⟨fun hg => ?_, ?_⟩, ?_⟩
  · obtain ⟨hbs, hd⟩ := forall₂_blocks r faces times trigger h s
    rw [(explosions_of_blocks hbs hd).1] at hg
    cases hg
    exact ⟨_, hbs, rfl, hd, length_flatten_of_blocks hbs⟩
  · rintro ⟨bs, hbs, rfl, hd, -⟩
    exact (explosions_of_blocks hbs hd).1
  · rw [explode?_eq trigger (by decide), explode_fixed]

end Block

section Merged

variable {σ : Type} {trigger : List Condition} {times : Nat} {d : Die} {b h : Hand} {bs : List Hand}

theorem toInt_saturate {n : Int} (hn : Fits n) : (saturate n).toInt = n := by
  rw [saturate, if_pos hn, toInt_ofInt hn]

theorem toInt_foldl_saturatingAdd (a : Int64) (vs : List Int64)
    (hfits : ∀ k, Fits (a.toInt + ((vs.map Int64.toInt).take k).sum)) :
    (vs.foldl saturatingAdd a).toInt = a.toInt + (vs.map Int64.toInt).sum := by
  induction vs generalizing a with
  | nil => simp
  | cons v vs ih =>
      have hadd : (saturatingAdd a v).toInt = a.toInt + v.toInt :=
        toInt_saturate (by simpa using hfits 1)
      have ih := ih (saturatingAdd a v) fun k => by
        simpa [hadd, Int.add_assoc] using hfits (k + 1)
      rw [List.foldl_cons, ih, hadd, List.map_cons, List.sum_cons, Int.add_assoc]

theorem Block.map_counts_merged (hb : Block trigger times d b) :
    (merged b).map Die.counts = [d.counts] := by
  cases hb <;> rfl

theorem map_counts_merged (hbs : List.Forall₂ (Block trigger times) h bs) :
    (bs.flatMap merged).map Die.counts = h.map Die.counts := by
  induction hbs with
  | nil => rfl
  | cons hb _ ih =>
      rw [List.flatMap_cons, List.map_append, ih, hb.map_counts_merged]
      rfl

theorem usable_flatten (bs : List Hand) : usable bs.flatten = bs.flatMap usable := by
  induction bs with
  | nil => rfl
  | cons b bs ih => rw [List.flatten_cons, usable_append, ih, List.flatMap_cons]

theorem usable_of_counts (hb : ∀ d ∈ b, d.counts = true) :
    usable b = (values b).map Int64.toInt := by
  rw [usable, List.filter_eq_self.mpr hb, values, List.map_map]
  rfl

theorem Block.counts_of_mem (hb : Block trigger times d b) (hd : d.counts = true) :
    ∀ e ∈ b, e.counts = true := by
  cases hb with
  | same => simpa using hd
  | chain => exact List.forall_mem_cons.mpr ⟨hd, List.forall_mem_map.mpr fun _ _ => rfl⟩

theorem Block.usable_merged (hb : Block trigger times d b) (hd : d.counts = true)
    (hfits : ∀ k, Fits ((usable b).take k).sum) : usable (merged b) = [(usable b).sum] := by
  have hcounts := hb.counts_of_mem hd
  obtain ⟨e, rest, rfl⟩ : ∃ e rest, b = e :: rest := by
    cases hb <;> exact ⟨_, _, rfl⟩
  rw [usable_of_counts hcounts] at hfits ⊢
  have hsum := toInt_foldl_saturatingAdd e.value (values rest) fun k => hfits (k + 1)
  have he : e.counts = true := hcounts e List.mem_cons_self
  simp only [merged, usable, he, List.filter_cons_of_pos, List.filter_nil, List.map_cons,
    List.map_nil, hsum]
  rfl

theorem usable_flatMap_merged (hbs : List.Forall₂ (Block trigger times) h bs)
    (hcounts : ∀ d ∈ h, d.counts = true)
    (hfits : ∀ b ∈ bs, ∀ k, Fits ((usable b).take k).sum) :
    usable (bs.flatMap merged) = bs.map fun b => (usable b).sum := by
  induction hbs with
  | nil => rfl
  | cons hb _ ih =>
      obtain ⟨hd, hcounts⟩ := List.forall_mem_cons.mp hcounts
      obtain ⟨hb', hfits⟩ := List.forall_mem_cons.mp hfits
      rw [List.flatMap_cons, usable_append, hb.usable_merged hd hb', ih hcounts hfits]
      rfl

theorem sum_map_usable (bs : List Hand) :
    (bs.map fun b => (usable b).sum).sum = (usable bs.flatten).sum := by
  rw [usable_flatten]
  induction bs with
  | nil => rfl
  | cons b bs ih => rw [List.map_cons, List.sum_cons, ih, List.flatMap_cons, List.sum_append]

theorem exists_take_usable (bs : List Hand) (k : Nat) :
    ∃ m, ((bs.map fun b => (usable b).sum).take k).sum = ((usable bs.flatten).take m).sum := by
  refine ⟨(usable (bs.take k).flatten).length, ?_⟩
  have hsplit : usable bs.flatten = usable (bs.take k).flatten ++ usable (bs.drop k).flatten := by
    rw [← usable_append, ← List.flatten_append, List.take_append_drop]
  rw [hsplit, List.take_left, ← List.map_take, sum_map_usable]

theorem map_merged (hbs : List.Forall₂ (Block trigger times) h bs) :
    bs.map merged = (bs.flatMap merged).map fun d => [d] := by
  induction hbs with
  | nil => rfl
  | cons hb _ ih =>
      rw [List.map_cons, List.flatMap_cons, List.map_append, ← ih]
      cases hb <;> rfl

theorem explodeInto_eq_merged (r : Roller σ) (faces : Faces) (times : Nat)
    (trigger : List Condition) (h : Hand) (s : σ) :
    let (bs, s') := h.blocks r faces times trigger s
    let beside := h.explode r faces times trigger s
    let into := h.explodeInto r faces times trigger s
    List.Forall₂ (Block trigger times) h bs ∧ r.Draws faces s (bs.flatMap added) s' ∧
      beside = (bs.flatten, s') ∧ into.2 = s' ∧
      (into.1.map fun d => [d]) = bs.map merged ∧ into.1.map Die.counts = h.map Die.counts ∧
      ((∀ d ∈ h, d.counts = true) → (∀ b ∈ bs, ∀ k, Fits ((usable b).take k).sum) →
        (usable into.1).sum = (usable beside.1).sum ∧
          ∀ v, beside.1.result = .int v → into.1.result = .int v) := by
  obtain ⟨hbs, hd⟩ := forall₂_blocks r faces times trigger h s
  obtain ⟨hbeside, hinto⟩ := explosions_eq r faces times trigger h s
  rw [hbeside, hinto]
  refine ⟨hbs, hd, rfl, rfl, (map_merged hbs).symm, map_counts_merged hbs, fun hcounts hfits => ?_⟩
  have husable := usable_flatMap_merged hbs hcounts hfits
  have hsum := congrArg List.sum husable
  rw [sum_map_usable] at hsum
  refine ⟨hsum, fun v hv => ?_⟩
  obtain ⟨htake, hvalue⟩ := (result_eq_int_iff _).mp hv
  refine (result_eq_int_iff _).mpr ⟨fun k => ?_, hvalue.trans hsum.symm⟩
  obtain ⟨m, hm⟩ := exists_take_usable (h.blocks r faces times trigger s).1 k
  rw [husable, hm]
  exact htake m

theorem explodeInto_eq_merged_chains :
    let r : Roller Int64 := { draw := fun _ v => (v, v - 1) }
    let trigger := [Condition.equalTo 6]
    let h : Hand := [.fresh 6, .fresh 3, .fresh 6]
    let beside := h.explode r Faces.d6 9 trigger 6
    let into := h.explodeInto r Faces.d6 9 trigger 6
    (∀ d ∈ h, d.counts = true) ∧
      (∀ b ∈ (h.blocks r Faces.d6 9 trigger 6).1, ∀ k, Fits ((usable b).take k).sum) ∧
      beside.1.result = .int 30 ∧ (usable into.1).sum = (usable beside.1).sum ∧
      into.1.result = .int 30 := by
  intro r trigger h beside into
  have hinits : ∀ b ∈ (h.blocks r Faces.d6 9 trigger 6).1, ∀ front ∈ (usable b).inits,
      Fits front.sum := by decide +kernel
  have hcounts : ∀ d ∈ h, d.counts = true := by decide
  have hfits : ∀ b ∈ (h.blocks r Faces.d6 9 trigger 6).1, ∀ k, Fits ((usable b).take k).sum :=
    fun b hb k => hinits b hb _ ((List.mem_inits ..).mpr (List.take_prefix k _))
  have hresult : beside.1.result = .int 30 := rfl
  obtain ⟨-, -, -, -, -, -, hsum⟩ := explodeInto_eq_merged r Faces.d6 9 trigger h 6
  exact ⟨hcounts, hfits, hresult, (hsum hcounts hfits).1, (hsum hcounts hfits).2 30 hresult⟩

end Merged

end Hand

end DiceTray
