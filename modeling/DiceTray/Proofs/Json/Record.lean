import DiceTray.Proofs.Json.Reading

namespace DiceTray.Json

theorem toString?_ofString (s : String) : (Text.ofString s).toString? = some s := by
  have hchars (cs : List Char) : (cs.map Glyph.char).mapM Glyph.char? = some cs := by
    induction cs with
    | nil => rfl
    | cons c cs ih => simp [Glyph.char?, ih]
  rw [Text.toString?, Text.ofString, hchars, Option.map_some, String.ofList_toList]

theorem Value.string?_string (s : String) : (Value.string s).string? = some s :=
  toString?_ofString s

theorem Value.word?_string (s : String) : (Value.string s).word? = some s :=
  toString?_ofString s

theorem Value.list?_array_eq_some_iff {α : Type} {item? : Value → Option α} {write : α → Value}
    {xs : List α} :
    list? item? (.array (xs.map write)) = some xs ↔ ∀ x ∈ xs, item? (write x) = some x := by
  change (xs.map write).mapM item? = some xs ↔ _
  induction xs with
  | nil => simp
  | cons x xs ih =>
      rw [List.map_cons, List.mapM_cons, List.forall_mem_cons, ← ih]
      cases item? (write x) with
      | none => exact iff_of_false nofun fun h => nomatch h.1
      | some y => cases (xs.map write).mapM item? <;> simp

theorem Value.exists_of_list? {α : Type} {item? : Value → Option α} {v : Value} {xs : List α}
    (h : list? item? v = some xs) {x : α} (hx : x ∈ xs) : ∃ w, item? w = some x := by
  cases v with
  | scalar y => cases h
  | object ms => cases h
  | array vs =>
      change vs.mapM item? = some xs at h
      induction vs generalizing xs with
      | nil =>
          cases h
          cases hx
      | cons w vs ih =>
          rw [List.mapM_cons] at h
          obtain ⟨y, hy, h⟩ := Option.bind_eq_some_iff.mp h
          obtain ⟨ys, hys, h⟩ := Option.bind_eq_some_iff.mp h
          cases h
          rcases List.mem_cons.mp hx with rfl | hx
          · exact ⟨w, hy⟩
          · exact ih hx hys

theorem mapM_field?_ofString (members : List (String × Value)) :
    (members.map fun (name, v) => (Text.ofString name, v)).mapM field? = some members := by
  induction members with
  | nil => rfl
  | cons m members ih => simp [field?, toString?_ofString, ih]

theorem fields?_record {names : List String} {members : List (String × Value)}
    (h : Fields.distinct names members) :
    fields? names (Value.record members) = some members := by
  rw [Value.record, fields?, mapM_field?_ofString, Option.filter_some, if_pos h]

namespace Value

theorem strict_scalar {x : Scalar} (h : x.Strict) : Strict (.scalar x) := fun y hy => by
  rw [pieces, List.mem_singleton] at hy
  cases hy
  exact h

theorem strict_of_mem_itemPieces {vs : List Value} (h : ∀ v ∈ vs, v.Strict) {x : Scalar}
    (hx : .scalar x ∈ itemPieces vs) : x.Strict := by
  induction vs with
  | nil => simp [itemPieces] at hx
  | cons v vs ih =>
      have hcases : .scalar x ∈ v.pieces ∨ .scalar x ∈ itemPieces vs := by
        cases vs with
        | nil => exact .inl hx
        | cons w ws => simpa [itemPieces] using hx
      rcases hcases with hx | hx
      · exact h v (by simp) x hx
      · exact ih (fun w hw => h w (by simp [hw])) hx

theorem strict_array {vs : List Value} (h : ∀ v ∈ vs, v.Strict) : Strict (.array vs) :=
  fun x hx => strict_of_mem_itemPieces h (by simpa [pieces] using hx)

theorem strict_of_mem_memberPieces {ms : List (Text × Value)}
    (h : ∀ m ∈ ms, Scalar.Strict (.string m.1) ∧ m.2.Strict) {x : Scalar}
    (hx : .scalar x ∈ memberPieces ms) : x.Strict := by
  induction ms with
  | nil => simp [memberPieces] at hx
  | cons m ms ih =>
      obtain ⟨hname, hv⟩ := h m (by simp)
      have hrest := fun hx => ih (fun m hm => h m (by simp [hm])) hx
      have hcases : x = .string m.1 ∨ .scalar x ∈ m.2.pieces ∨ .scalar x ∈ memberPieces ms := by
        cases ms <;> simpa [memberPieces] using hx
      rcases hcases with rfl | hx | hx
      · exact hname
      · exact hv x hx
      · exact hrest hx

theorem strict_record {members : List (String × Value)} (h : ∀ m ∈ members, m.2.Strict) :
    Strict (record members) := fun x hx => by
  rw [record, pieces] at hx
  have hx : .scalar x ∈ memberPieces (members.map fun (name, v) => (Text.ofString name, v)) := by
    simpa using hx
  refine strict_of_mem_memberPieces (fun m hm => ?_) hx
  obtain ⟨⟨name, v⟩, hmem, rfl⟩ := List.mem_map.mp hm
  exact ⟨.string name, h _ hmem⟩

end Value

end DiceTray.Json
