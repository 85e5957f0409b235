import DiceTray.Proofs.Hand.Marks

namespace DiceTray

namespace Roller

variable {σ : Type} {r : Roller σ} {faces : Faces}

def draw? (r : Roller σ) (faces : Faces) (s : σ) : Option (Int64 × σ) :=
  if faces.low ≤ faces.high then some (r.draw faces s) else none

def drawMany? (r : Roller σ) (faces : Faces) (count : Nat) (s : σ) : Option (List Int64 × σ) :=
  if faces.low ≤ faces.high then some (r.drawMany faces count s) else none

theorem draw?_eq (hf : faces.low ≤ faces.high) (s : σ) : r.draw? faces s = some (r.draw faces s) :=
  if_pos hf

theorem drawMany?_eq (hf : faces.low ≤ faces.high) (count : Nat) (s : σ) :
    r.drawMany? faces count s = some (r.drawMany faces count s) :=
  if_pos hf

end Roller

namespace Hand

def changeAt? (f : Die → Die) (place : Nat) (h : Hand) : Option Hand :=
  h[place]?.map fun d => h.set place (f d)

def insertAt? (d : Die) (place : Nat) (h : Hand) : Option Hand :=
  if place ≤ h.length then some (h.insertIdx place d) else none

def valueAt? (h : Hand) (place : Nat) : Option Int64 := h[place]?.map Die.value

def values? (h : Hand) : Option (List (Int64 × Nat)) :=
  (List.range h.length).mapM fun place => (h.valueAt? place).map fun v => (v, place)

section Keep

def ranking? (h : Hand) : Option (List Nat) :=
  h.values?.map fun ws => (ws.mergeSort outranks).map (·.2)

def dropAt? : List Nat → Hand → Option Hand
  | [], h => some h
  | place :: places, h => (changeAt? Die.drop place h).bind (dropAt? places)

def keepHigh? (n : Nat) (h : Hand) : Option Hand :=
  h.ranking?.bind fun order => dropAt? (order.drop n) h

def keepLow? (n : Nat) (h : Hand) : Option Hand :=
  h.ranking?.bind fun order => dropAt? (order.take (order.length - n)) h

end Keep

section Draw

variable {σ : Type} (r : Roller σ) (faces : Faces) (trigger : List Condition)

def draw? (count : Nat) (s : σ) : Option (Hand × σ) := do
  let (vs, s) ← r.drawMany? faces count s
  some (vs.map Die.fresh, s)

def firing? (h : Hand) : Option (List Nat) :=
  h.values?.map fun ws => (ws.filter fun w => fires trigger w.1).map (·.2)

def anyFires? : List Nat → Hand → Option Bool
  | [], _ => some false
  | place :: places, h => do
      let v ← h.valueAt? place
      if fires trigger v then some true else anyFires? places h

def redraw? : List Nat → Hand → σ → Option (Hand × σ)
  | [], h, s => some (h, s)
  | place :: places, h, s => do
      let (v, s) ← r.draw? faces s
      let h ← changeAt? (fun d => { d with value := v }.mark .rerolled) place h
      redraw? places h s

def redrawWhile? (places : List Nat) : Nat → Hand → σ → Option (Hand × σ)
  | 0, h, s => some (h, s)
  | times + 1, h, s => do
      if ← anyFires? trigger places h then
        let (h, s) ← redraw? r faces places h s
        redrawWhile? places times h s
      else some (h, s)

def reroll? (times : Nat) (h : Hand) (s : σ) : Option (Hand × σ) := do
  let places ← firing? trigger h
  redrawWhile? r faces trigger places times h s

def joined (v : Int64) : Die := (Die.fresh v).mark .exploded

def chainAt? : Nat → Nat → Int64 → Hand → σ → Option (Nat × Hand × σ)
  | 0, _, _, h, s => some (0, h, s)
  | times + 1, place, last, h, s =>
      if fires trigger last then do
        let h ← changeAt? (Die.mark · .exploded) place h
        let (v, s) ← r.draw? faces s
        let h ← insertAt? (joined v) (place + 1) h
        let (n, h, s) ← chainAt? times (place + 1) v h s
        some (n + 1, h, s)
      else some (0, h, s)

def explodeAt? (times : Nat) : List Nat → Nat → Hand → σ → Option (Hand × σ)
  | [], _, h, s => some (h, s)
  | place :: places, before, h, s => do
      let v ← h.valueAt? (place + before)
      let (n, h, s) ← chainAt? r faces trigger times (place + before) v h s
      explodeAt? times places (before + n) h s

def explode? (times : Nat) (h : Hand) (s : σ) : Option (Hand × σ) := do
  let places ← firing? trigger h
  explodeAt? r faces trigger times places 0 h s

def chain? : Nat → Int64 → σ → Option (List Int64 × σ)
  | 0, _, s => some ([], s)
  | times + 1, last, s =>
      if fires trigger last then do
        let (v, s) ← r.draw? faces s
        let (vs, s) ← chain? times v s
        some (v :: vs, s)
      else some ([], s)

def explodeInto? (times : Nat) : Hand → σ → Option (Hand × σ)
  | [], s => some ([], s)
  | d :: rest, s => do
      let (vs, s) ← chain? r faces trigger times d.value s
      let (rest, s) ← explodeInto? times rest s
      some (joinInto d vs ++ rest, s)

end Draw

section

variable {front rest : Hand} {d e : Die}

theorem changeAt?_append (f : Die → Die) :
    changeAt? f front.length (front ++ d :: rest) = some (front ++ f d :: rest) := by
  simp [changeAt?]

theorem insertAt?_append :
    insertAt? e (front.length + 1) (front ++ d :: rest) = some (front ++ d :: e :: rest) := by
  have hinsert : (front ++ d :: rest).insertIdx (front.length + 1) e = front ++ d :: e :: rest := by
    induction front with
    | nil => simp
    | cons c front ih => simpa using ih
  rw [insertAt?, if_pos (by simp), hinsert]

theorem valueAt?_append : (front ++ d :: rest).valueAt? front.length = some d.value := by
  simp [valueAt?]

theorem mapM_valueAt?_append (front rest : Hand) :
    ((List.range' front.length rest.length).mapM fun place =>
      ((front ++ rest).valueAt? place).map fun v => (v, place)) =
        some (rest.values.zipIdx front.length) := by
  induction rest generalizing front with
  | nil => rfl
  | cons d rest ih =>
      have ih := ih (front ++ [d])
      simp only [← List.append_cons, List.length_append, List.length_singleton] at ih
      rw [List.length_cons, List.range'_succ, List.mapM_cons, valueAt?_append, ih]
      rfl

theorem values?_eq (h : Hand) : h.values? = some h.values.zipIdx := by
  rw [values?, List.range_eq_range']
  exact mapM_valueAt?_append [] h

theorem ranking?_eq (h : Hand) : h.ranking? = some (ranking h.values) := by
  rw [ranking?, values?_eq]
  rfl

theorem map_filter_fires (trigger : List Condition) (h : Hand) (k : Nat) :
    (((h.values.zipIdx k).filter fun w => fires trigger w.1).map (·.2)) =
      h.findIdxs (fun d => fires trigger d.value) k := by
  induction h generalizing k with
  | nil => rfl
  | cons d h ih =>
      rw [List.findIdxs_cons, values, List.map_cons, List.zipIdx_cons, List.filter_cons, ← ih]
      split <;> rfl

theorem firing?_eq (trigger : List Condition) (h : Hand) :
    firing? trigger h = some (h.findIdxs fun d => fires trigger d.value) := by
  rw [firing?, values?_eq, Option.map_some, map_filter_fires]

end

section Keep

variable {h : Hand} {places : List Nat} {i : Nat} {d : Die}

theorem exists_dropAt? (hp : ∀ i ∈ places, i < h.length) :
    ∃ g, dropAt? places h = some g ∧
      ∀ i, g[i]? = h[i]?.map fun d => if i ∈ places then d.drop else d := by
  induction places generalizing h with
  | nil => exact ⟨h, rfl, fun i => by simp⟩
  | cons place places ih =>
      obtain ⟨hlt, hp⟩ := List.forall_mem_cons.mp hp
      have hrest : ∀ i ∈ places, i < (h.set place h[place].drop).length := by simpa using hp
      obtain ⟨g, hg, hget⟩ := ih hrest
      have hd := List.getElem?_eq_getElem hlt
      refine ⟨g, by rw [dropAt?, changeAt?, hd, Option.map_some, Option.bind_some, hg], ?_⟩
      intro i
      rw [hget, List.getElem?_set]
      by_cases hi : place = i
      · subst hi
        have htwice : h[place].drop.drop = h[place].drop := by
          simp only [Die.drop, Die.mark, Marks.add_add]
        simp [hlt, htwice]
      · simp [hi, Ne.symm hi]

theorem getElem?_ranking_iff {v : Int64} {k : Nat} (hv : h.values[i]? = some v) :
    (ranking h.values)[k]? = some i ↔ k = rank h.values i v := by
  have hrank := getElem?_ranking hv
  constructor
  · intro hk
    have hnodup := (ranking_perm h.values).nodup_iff.mpr List.nodup_range
    have hlt := (List.getElem?_eq_some_iff.mp hk).1
    exact (List.getElem?_inj hlt hnodup).mp (hk.trans hrank.symm)
  · rintro rfl
    exact hrank

theorem dropAt?_eq_dropWhere {p : Nat → Bool} (hlt : ∀ i ∈ places, i < h.length)
    (hp : ∀ {i : Nat} {d : Die}, h[i]? = some d →
      (i ∈ places ↔ p (rank h.values i d.value) = true)) :
    dropAt? places h = some (h.dropWhere p) := by
  obtain ⟨g, hg, hget⟩ := exists_dropAt? hlt
  rw [hg, Option.some.injEq]
  refine List.ext_getElem? fun i => ?_
  rw [hget]
  cases hd : h[i]? with
  | none =>
      have hlen := List.getElem?_eq_none_iff.mp hd
      rw [List.getElem?_eq_none (by rwa [length_dropWhere])]
      rfl
  | some d =>
      rw [getElem?_dropWhere p hd, Option.map_some]
      simp only [hp hd]

theorem lt_of_mem_ranking (hi : i ∈ ranking h.values) : i < h.length := by
  simpa [values] using (ranking_perm h.values).subset hi

theorem keepHigh?_eq (n : Nat) (h : Hand) : h.keepHigh? n = some (h.keepHigh n) := by
  rw [keepHigh?, ranking?_eq, Option.bind_some]
  refine dropAt?_eq_dropWhere (fun i hi => lt_of_mem_ranking (List.mem_of_mem_drop hi)) ?_
  intro i d hd
  have hrank {k : Nat} := getElem?_ranking_iff (k := k) (getElem?_values hd)
  rw [decide_eq_true_iff, List.mem_iff_getElem?]
  simp only [List.getElem?_drop, hrank]
  exact ⟨fun ⟨k, hk⟩ => hk ▸ Nat.le_add_right n k, fun hn => ⟨_, Nat.add_sub_cancel' hn⟩⟩

theorem keepLow?_eq (n : Nat) (h : Hand) : h.keepLow? n = some (h.keepLow n) := by
  have hlen : (ranking h.values).length = h.length := by simp [length_ranking, values]
  rw [keepLow?, ranking?_eq, Option.bind_some, hlen]
  refine dropAt?_eq_dropWhere (fun i hi => lt_of_mem_ranking (List.mem_of_mem_take hi)) ?_
  intro i d hd
  have hrank {k : Nat} := getElem?_ranking_iff (k := k) (getElem?_values hd)
  rw [decide_eq_true_iff, List.mem_iff_getElem?]
  simp [List.getElem?_take, hrank]

end Keep

theorem draw?_eq {σ : Type} {r : Roller σ} {faces : Faces} (hf : faces.low ≤ faces.high)
    (count : Nat) (s : σ) : draw? r faces count s = some (draw r faces count s) := by
  rw [draw?, Roller.drawMany?_eq hf]
  rfl

def picks (before : Nat) (batch : List (Bool × Die)) : List Nat := batch.findIdxs (·.1) before

section Reroll

variable {σ : Type} {r : Roller σ} {faces : Faces} (trigger : List Condition)
  (batch : List (Bool × Die))

theorem picks_redraw (before : Nat) (s : σ) :
    picks before (redraw r faces batch s).1 = picks before batch := by
  unfold picks
  induction batch generalizing before s with
  | nil => rfl
  | cons x batch ih =>
      obtain ⟨picked, d⟩ := x
      cases picked <;> simp [redraw, ih]

theorem anyFires?_eq (front : Hand) :
    anyFires? trigger (picks front.length batch) (front ++ batch.map (·.2)) =
      some (batch.any fun (picked, d) => picked && fires trigger d.value) := by
  unfold picks
  induction batch generalizing front with
  | nil => rfl
  | cons x batch ih =>
      obtain ⟨picked, d⟩ := x
      have ih := ih (front ++ [d])
      simp only [← List.append_cons, List.length_append, List.length_singleton] at ih
      cases picked with
      | false => simpa using ih
      | true =>
          cases hd : fires trigger d.value with
          | true => simp [anyFires?, valueAt?_append, hd]
          | false => simpa [anyFires?, valueAt?_append, hd] using ih

theorem redraw?_eq (hf : faces.low ≤ faces.high) (front : Hand) (s : σ) :
    redraw? r faces (picks front.length batch) (front ++ batch.map (·.2)) s =
      some (front ++ (redraw r faces batch s).1.map (·.2), (redraw r faces batch s).2) := by
  unfold picks
  induction batch generalizing front s with
  | nil => rfl
  | cons x batch ih =>
      obtain ⟨picked, d⟩ := x
      cases picked with
      | false =>
          have ih := ih (front ++ [d]) s
          simp only [← List.append_cons, List.length_append, List.length_singleton] at ih
          simpa [redraw] using ih
      | true =>
          have ih := ih (front ++ [{ d with value := (r.draw faces s).1 }.mark .rerolled])
            (r.draw faces s).2
          simp only [← List.append_cons, List.length_append, List.length_singleton] at ih
          simp [redraw?, Roller.draw?_eq hf, changeAt?_append, ih, redraw]

theorem redrawWhile?_eq (hf : faces.low ≤ faces.high) (times : Nat) (s : σ) :
    redrawWhile? r faces trigger (picks 0 batch) times (batch.map (·.2)) s =
      some ((redrawWhile r faces trigger times batch s).1.map (·.2),
        (redrawWhile r faces trigger times batch s).2) := by
  induction times generalizing batch s with
  | zero => rfl
  | succ times ih =>
      have hany := anyFires?_eq trigger batch []
      have hround := redraw?_eq (r := r) batch hf [] s
      simp only [List.length_nil, List.nil_append] at hany hround
      rw [redrawWhile?, hany, redrawWhile]
      simp only [Option.bind_eq_bind, Option.bind_some]
      split
      · rw [hround, Option.bind_some, ← picks_redraw batch 0 s]
        exact ih _ _
      · rfl

theorem reroll?_eq (hf : faces.low ≤ faces.high) (times : Nat) (h : Hand) (s : σ) :
    reroll? r faces trigger times h s = some (h.reroll r faces times trigger s) := by
  let batch := h.map fun d => (fires trigger d.value, d)
  have hplaces : picks 0 batch = h.findIdxs fun d => fires trigger d.value := List.findIdxs_map
  have hdice : batch.map (·.2) = h := (List.map_map ..).trans (List.map_id h)
  have hwhile := redrawWhile?_eq (r := r) trigger batch hf times s
  rw [hplaces, hdice] at hwhile
  rw [reroll?, firing?_eq]
  exact hwhile

end Reroll

section Explode

variable {σ : Type} {r : Roller σ} {faces : Faces} (trigger : List Condition)

theorem joinBeside_cons (d : Die) (v : Int64) (vs : List Int64) :
    joinBeside d (v :: vs) = d.mark .exploded :: joinBeside (joined v) vs := by
  cases vs <;> rfl

theorem chainAt?_eq (hf : faces.low ≤ faces.high) (times : Nat) (front rest : Hand) (d : Die)
    (last : Int64) (s : σ) :
    let made := chain r faces trigger times last s
    chainAt? r faces trigger times front.length last (front ++ d :: rest) s =
      some (made.1.length, front ++ joinBeside d made.1 ++ rest, made.2) := by
  -- The die that is marked joins the front, and the new one takes its place.
  induction times generalizing front d last s with
  | zero => simp [chainAt?, chain, joinBeside]
  | succ times ih =>
      intro made
      simp only [made, chainAt?, chain]
      split
      case isFalse => simp [joinBeside]
      case isTrue =>
          have ih := ih (front ++ [d.mark .exploded]) (joined (r.draw faces s).1)
            (r.draw faces s).1 (r.draw faces s).2
          simp only [← List.append_cons, List.length_append, List.length_singleton] at ih
          simp [Roller.draw?_eq hf, changeAt?_append, insertAt?_append, ih, joinBeside_cons]

theorem explodeAt?_eq (hf : faces.low ≤ faces.high) (times before : Nat) (front rest : Hand)
    {k : Nat} (hk : front.length = k + before) (s : σ) :
    explodeAt? r faces trigger times (rest.findIdxs (fun d => fires trigger d.value) k) before
        (front ++ rest) s =
      some (front ++ (rest.explode r faces times trigger s).1,
        (rest.explode r faces times trigger s).2) := by
  -- The front holds the `k` dice that are done with and the `before` dice that were put in.
  induction rest generalizing front before k s with
  | nil => rfl
  | cons d rest ih =>
      let made := chain r faces trigger times d.value s
      have ih := ih (before + made.1.length) (front ++ joinBeside d made.1) (k := k + 1)
        (by rw [List.length_append, length_joinBeside, hk]; omega) made.2
      have hcons : explode r faces times trigger (d :: rest) s =
          (joinBeside d made.1 ++ (explode r faces times trigger rest made.2).1,
            (explode r faces times trigger rest made.2).2) := rfl
      rw [List.findIdxs_cons, hcons]
      split
      case isTrue hd =>
          rw [explodeAt?, ← hk, valueAt?_append]
          simp only [Option.bind_eq_bind, Option.bind_some, chainAt?_eq trigger hf]
          rw [ih, List.append_assoc]
      case isFalse hd =>
          have hmade : made = ([], s) := by cases times <;> simp [made, chain, hd]
          rw [hmade] at ih ⊢
          simpa [joinBeside] using ih

theorem explode?_eq (hf : faces.low ≤ faces.high) (times : Nat) (h : Hand) (s : σ) :
    explode? r faces trigger times h s = some (h.explode r faces times trigger s) := by
  rw [explode?, firing?_eq]
  exact explodeAt?_eq trigger hf times 0 [] h rfl s

theorem chain?_eq (hf : faces.low ≤ faces.high) (times : Nat) (last : Int64) (s : σ) :
    chain? r faces trigger times last s = some (chain r faces trigger times last s) := by
  induction times generalizing last s with
  | zero => rfl
  | succ times ih =>
      rw [chain?, chain]
      split
      · simp [Roller.draw?_eq hf, ih]
      · rfl

theorem explodeInto?_eq (hf : faces.low ≤ faces.high) (times : Nat) (h : Hand) (s : σ) :
    explodeInto? r faces trigger times h s = some (h.explodeInto r faces times trigger s) := by
  induction h generalizing s with
  | nil => rfl
  | cons d rest ih =>
      simp [explodeInto?, chain?_eq trigger hf, ih, explodeInto, expand]

end Explode

end Hand

end DiceTray
