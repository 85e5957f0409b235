import DiceTray.Proofs.Json.Reading
import DiceTray.Text.Blank

namespace DiceTray.Json

open Decimal

section

variable {c : Char} (rev : Text)

theorem scan_string_escape {e : Char} (h : Text.unescape? c = some e) (cs : List Char) :
    scan (.string rev) ('\\' :: c :: cs) = scan (.string (.char e :: rev)) cs := by
  rw [scan, h]
  rintro a b c' d ds rfl
  cases h

theorem scan_string_of_unescape? (h : Text.unescape? c = none) {cs : List Char}
    (hunit : ∀ a b c' d ds, c = 'u' → cs = a :: b :: c' :: d :: ds →
      Text.hexUnit? a b c' d = none) :
    scan (.string rev) ('\\' :: c :: cs) = none := by
  by_cases hu : ∃ a b c' d ds, c = 'u' ∧ cs = a :: b :: c' :: d :: ds
  · obtain ⟨a, b, c', d, ds, rfl, rfl⟩ := hu
    rw [scan, hunit a b c' d ds rfl rfl]
  · rw [scan, h]
    exact fun a b c' d ds hc hcs => hu ⟨a, b, c', d, ds, hc, hcs⟩

theorem scan_string_of_refused {cs : List Char}
    (hend : ∀ d ds, c = '\\' → cs = d :: ds → False) (hquote : c ≠ '"')
    (hc : c.toNat < 0x20 ∨ c = '\\') :
    scan (.string rev) (c :: cs) = none := by
  by_cases hslash : c = '\\'
  · subst hslash
    cases cs with
    | nil => rfl
    | cons d cs => exact (hend d cs rfl rfl).elim
  · rw [scan_string_char hquote hslash, if_pos (hc.resolve_right hslash)]

end

theorem hexUnit?_of_tab {a b c d : Char} (h : '\t' ∈ [a, b, c, d]) :
    Text.hexUnit? a b c d = none := by
  have htab : Text.hexValue? '\t' = none := by decide
  simp only [List.mem_cons, List.not_mem_nil, or_false] at h
  unfold Text.hexUnit?
  rcases h with rfl | rfl | rfl | rfl <;> simp [htab]

theorem tab_mem_of_append {cs rest ds : List Char} {a b c d : Char}
    (hshort : ∀ a b c d ds, cs ≠ a :: b :: c :: d :: ds)
    (h : cs ++ '\t' :: rest = a :: b :: c :: d :: ds) : '\t' ∈ [a, b, c, d] := by
  match cs with
  | [] => grind
  | [_] => grind
  | [_, _] => grind
  | [_, _, _] => grind
  | a :: b :: c :: d :: ds => exact absurd rfl (hshort a b c d ds)

theorem map_bind_append {f : List Piece → List Piece} (hf : ∀ ps qs, f (ps ++ qs) = f ps ++ qs)
    (x y : Option (List Piece)) :
    (x.bind fun ps => y.map (ps ++ ·)).map f = (x.map f).bind fun ps => y.map (ps ++ ·) := by
  cases x with
  | none => rfl
  | some ps => simp [Function.comp_def, hf]

theorem bind_map_append {f : List Piece → List Piece → List Piece}
    (hf : ∀ os ps qs, f os (ps ++ qs) = f os ps ++ qs) (w x y : Option (List Piece)) :
    (w.bind fun os => (x.bind fun ps => y.map (ps ++ ·)).map (f os)) =
      (w.bind fun os => x.map (f os)).bind fun ps => y.map (ps ++ ·) := by
  cases w with
  | none => rfl
  | some os => exact map_bind_append (hf os) x y

theorem scan_append_tab (p : Place) (cs rest : List Char) :
    scan p (cs ++ '\t' :: rest) =
      (scan p cs).bind fun ps => (scan (.word []) rest).map (ps ++ ·) := by
  induction p, cs using scan.induct with
  | case1 rev => simp [scan, isGap]
  | case2 rev cs ih =>
      simp only [List.cons_append, scan, if_true, ih]
      exact bind_map_append (fun os ps qs => (List.append_assoc os ps qs).symm) ..
  | case3 rev c cs hquote hgap ih =>
      simp only [List.cons_append, scan, hquote, hgap, if_true, if_false, ih]
      exact bind_map_append (fun os ps qs => (List.append_assoc os ps qs).symm) ..
  | case4 rev c cs _ _ p hp ih =>
      simp only [List.cons_append, scan_mark hp, ih]
      exact bind_map_append (fun os ps qs => (List.append_assoc os (p :: ps) qs).symm) ..
  | case5 rev c cs hquote hgap hp ih =>
      simp only [List.cons_append, scan, hquote, hgap, hp, if_false, ih]
      rfl
  | case6 rev => simp [scan]
  | case7 rev a b c d cs n hn ih => simp only [List.cons_append, scan, hn, ih]
  | case8 rev a b c d cs hn =>
      simp only [List.cons_append, scan, hn]
      rfl
  | case9 rev c cs _ e he ih =>
      rw [List.cons_append, List.cons_append, scan_string_escape rev he,
        scan_string_escape rev he, ih]
  | case10 rev c cs hunit he =>
      rw [scan_string_of_unescape? rev he fun _ _ _ _ _ hc h => (hunit _ _ _ _ _ hc h).elim]
      -- the four characters after a `u` may reach over the tab, which is no digit
      refine scan_string_of_unescape? rev he fun a b c' d ds hc h => ?_
      exact hexUnit?_of_tab (tab_mem_of_append (fun a b c' d ds => hunit a b c' d ds hc) h)
  | case11 rev cs ih =>
      simp only [List.cons_append, scan, ih]
      exact map_bind_append (fun _ _ => rfl) ..
  | case12 rev c cs _ hend hquote hc =>
      rw [scan_string_of_refused rev hend hquote hc]
      by_cases hslash : c = '\\'
      · subst hslash
        cases cs with
        | nil =>
            have hunit : '\t' ≠ 'u' := by decide
            exact scan_string_of_unescape? rev (by decide) fun _ _ _ _ _ h => absurd h hunit
        | cons d cs => exact (hend d cs rfl rfl).elim
      · exact scan_string_of_refused rev (fun _ _ h => absurd h hslash) hquote hc
  | case13 rev c cs _ hend hquote hc ih =>
      obtain ⟨hlow, hslash⟩ := not_or.mp hc
      rw [List.cons_append, scan_string_char hquote hslash, if_neg hlow,
        scan_string_char hquote hslash, if_neg hlow, ih]

theorem closeWord?_eq_some_nil_iff {rev : List Char} : closeWord? rev = some [] ↔ rev = [] := by
  cases rev <;> simp [closeWord?]

theorem scan_eq_some_nil_iff {p : Place} {cs : List Char} :
    scan p cs = some [] ↔ p = .word [] ∧ ∀ c ∈ cs, isGap c = true := by
  induction p, cs using scan.induct with
  | case1 rev => simp [scan, closeWord?_eq_some_nil_iff]
  | case2 rev cs ih => simp [scan, Option.bind_eq_some_iff, ih, isGap]
  | case3 rev c cs hquote hgap ih =>
      simp [scan, Option.bind_eq_some_iff, ih, hquote, hgap, closeWord?_eq_some_nil_iff]
  | case4 rev c cs _ hgap p hp ih => simp [scan_mark hp, Option.bind_eq_some_iff, hgap]
  | case5 rev c cs hquote hgap hp ih => simp [scan, hquote, hgap, hp, ih]
  | case6 rev => simp [scan]
  | case7 rev a b c d cs n hn ih => simp [scan, hn, ih]
  | case8 rev a b c d cs hn => simp [scan, hn]
  | case9 rev c cs _ e he ih => simp [scan_string_escape rev he, ih]
  | case10 rev c cs hunit he =>
      simp [scan_string_of_unescape? rev he fun _ _ _ _ _ hc h => (hunit _ _ _ _ _ hc h).elim]
  | case11 rev cs ih => simp [scan]
  | case12 rev c cs _ hend hquote hc => simp [scan_string_of_refused rev hend hquote hc]
  | case13 rev c cs _ _ hquote hc ih =>
      obtain ⟨hlow, hslash⟩ := not_or.mp hc
      simp [scan_string_char hquote hslash, hlow, ih]

def Piece.rise : Piece → Int
  | .openArray => 1
  | .openObject => 1
  | .closeArray => -1
  | .closeObject => -1
  | _ => 0

namespace Stage

def height : Stage → Nat
  | .value frames => frames.length
  | .item frames => frames.length + 1
  | .member frames => frames.length + 1
  | .nextName _ frames => frames.length + 1
  | .colon _ _ frames => frames.length + 1
  | .done _ frames => frames.length

section

variable {st st' : Stage} {p : Piece} {ps : List Piece}

theorem height_begin? {frames : List Frame} (h : begin? frames p = some st') :
    (st'.height : Int) = frames.length + p.rise := by
  cases p <;> cases h <;> simp [height, Piece.rise]

theorem height_step? (h : st.step? p = some st') : (st'.height : Int) = st.height + p.rise := by
  unfold step? at h
  split at h
  case h_1 => exact height_begin? h
  case h_3 => exact height_begin? h
  all_goals cases h <;> simp [height, Piece.rise]

theorem height_run? (h : run? st ps = some st') :
    (st'.height : Int) = st.height + (ps.map Piece.rise).sum := by
  induction ps generalizing st with
  | nil =>
      cases h
      simp
  | cons p ps ih =>
      obtain ⟨st₁, hstep, hrun⟩ := Option.bind_eq_some_iff.mp h
      rw [ih hrun, height_step? hstep, List.map_cons, List.sum_cons, Int.add_assoc]

theorem run?_append (st : Stage) (ps qs : List Piece) :
    run? st (ps ++ qs) = (run? st ps).bind fun st => run? st qs := by
  induction ps generalizing st with
  | nil => rfl
  | cons p ps ih =>
      rw [List.cons_append, run?, run?, Option.bind_assoc]
      exact congrArg _ (funext ih)

theorem step?_ne_value (st : Stage) (p : Piece) : st.step? p ≠ some (.value []) := by
  intro h
  unfold step? at h
  split at h
  case h_1 => cases p <;> cases h
  case h_3 => cases p <;> cases h
  all_goals cases h

theorem eq_nil_of_run?_value (h : run? st ps = some (.value [])) : ps = [] := by
  rcases ps.eq_nil_or_concat with rfl | ⟨qs, p, rfl⟩
  · rfl
  · rw [List.concat_eq_append, run?_append] at h
    obtain ⟨st₁, -, hlast⟩ := Option.bind_eq_some_iff.mp h
    obtain ⟨st₂, hstep, hend⟩ := Option.bind_eq_some_iff.mp hlast
    cases hend
    exact absurd hstep (step?_ne_value st₁ p)

end

end Stage

theorem ofPieces?_eq_some_iff {ps : List Piece} {v : Value} :
    ofPieces? ps = some v ↔ Stage.run? (.value []) ps = some (.done v []) := by
  unfold ofPieces?
  split
  case h_1 w h => simp [h]
  case h_2 h => exact iff_of_false nofun fun he => h v he

theorem eq_nil_of_ofPieces?_append {ps qs : List Piece} {v w : Value}
    (hv : ofPieces? (ps ++ qs) = some v) (hw : ofPieces? qs = some w) : ps = [] := by
  rw [ofPieces?_eq_some_iff] at hv hw
  rw [Stage.run?_append] at hv
  obtain ⟨st, hps, hqs⟩ := Option.bind_eq_some_iff.mp hv
  have hheight : st.height = 0 := by
    have hall : (0 : Int) = st.height + (qs.map Piece.rise).sum := Stage.height_run? hqs
    have hend : (0 : Int) = 0 + (qs.map Piece.rise).sum := Stage.height_run? hw
    omega
  cases st with
  | value frames =>
      obtain rfl := List.length_eq_zero_iff.mp hheight
      exact Stage.eq_nil_of_run?_value hps
  | done u frames =>
      obtain rfl := List.length_eq_zero_iff.mp hheight
      cases qs with
      | nil => cases hw
      | cons q qs => cases hqs
  | item => cases hheight
  | member => cases hheight
  | nextName => cases hheight
  | colon => cases hheight

theorem read?_of_tab {before rest : String} {v : Value}
    (h : read? (before ++ "\t" ++ rest) = some v) :
    read? rest = if before.toList.all isGap then some v else none := by
  have hchars : (before ++ "\t" ++ rest).toList = before.toList ++ '\t' :: rest.toList := by simp
  rw [read?, hchars, scan_append_tab] at h
  obtain ⟨rs, hscan, hrs⟩ := Option.bind_eq_some_iff.mp h
  obtain ⟨ps, hps, hscan⟩ := Option.bind_eq_some_iff.mp hscan
  obtain ⟨qs, hqs, rfl⟩ := Option.map_eq_some_iff.mp hscan
  rw [read?, hqs, Option.bind_some]
  split
  case isTrue hgaps =>
    have hblank := scan_eq_some_nil_iff.mpr ⟨rfl, List.all_eq_true.mp hgaps⟩
    cases hps.symm.trans hblank
    exact hrs
  case isFalse hgaps =>
    cases hw : ofPieces? qs with
    | none => rfl
    | some w =>
        obtain rfl := eq_nil_of_ofPieces?_append hrs hw
        exact absurd (List.all_eq_true.mpr (scan_eq_some_nil_iff.mp hps).2) hgaps

section

variable {c : Char}

theorem ofChar?_of_isBlank (h : Text.isBlank c = true) : Digit.ofChar? c = none := by
  have hdigit (d : Digit) : Text.isBlank d.char = false := by
    revert d
    decide
  cases hd : Digit.ofChar? c with
  | none => rfl
  | some d =>
      rw [← Digit.char_of_ofChar? hd, hdigit d] at h
      cases h

theorem ne_of_isBlank {d : Char} (h : Text.isBlank c = true) (hd : Text.isBlank d = false) :
    c ≠ d := by
  rintro rfl
  cases h.symm.trans hd

theorem Piece.ofChar?_of_isBlank (h : Text.isBlank c = true) : ofChar? c = none := by
  rw [ofChar?, if_neg (ne_of_isBlank h (by decide)), if_neg (ne_of_isBlank h (by decide)),
    if_neg (ne_of_isBlank h (by decide)), if_neg (ne_of_isBlank h (by decide)),
    if_neg (ne_of_isBlank h (by decide)), if_neg (ne_of_isBlank h (by decide))]

theorem numeral?_of_isBlank (h : Text.isBlank c = true) (cs : List Char) :
    numeral? (c :: cs) = none := by
  have hspan : spanDigits (c :: cs) = ([], c :: cs) := by
    rw [spanDigits, ofChar?_of_isBlank h]
  have hread : Numeral.readUnsigned? false (c :: cs) = none := by
    unfold Numeral.readUnsigned?
    rw [hspan]
    split
    case h_1 hdot =>
      exact absurd (List.cons.inj (Prod.mk.inj hdot).2).1 (ne_of_isBlank h (by decide))
    case h_2 hword =>
      cases hword
      exact if_neg (not_or.mpr ⟨ne_of_isBlank h (by decide), ne_of_isBlank h (by decide)⟩)
  unfold numeral?
  split
  next negative body hsign =>
    split at hsign
    case h_1 hm => exact absurd (List.cons.inj hm).1 (ne_of_isBlank h (by decide))
    case h_2 =>
      cases hsign
      rw [hread]

theorem ofWord?_of_isBlank (h : Text.isBlank c = true) (cs : List Char) :
    Scalar.ofWord? (c :: cs) = none := by
  have hne {d : Char} {ds : List Char} (hd : Text.isBlank d = false) : c :: cs ≠ d :: ds :=
    fun he => ne_of_isBlank h hd (List.cons.inj he).1
  have hnull : c :: cs ≠ nullWord := hne (by decide)
  have htrue : c :: cs ≠ trueWord := hne (by decide)
  have hfalse : c :: cs ≠ falseWord := hne (by decide)
  rw [Scalar.ofWord?, if_neg hnull, if_neg htrue, if_neg hfalse, numeral?_of_isBlank h]
  rfl

end

theorem closeWord?_of_blanks {rev : List Char} {ps : List Piece}
    (hrev : ∀ c ∈ rev, Text.isBlank c = true) (h : closeWord? rev = some ps) : ps = [] := by
  cases hcs : rev.reverse with
  | nil =>
      obtain rfl := List.reverse_eq_nil_iff.mp hcs
      cases h
      rfl
  | cons c cs =>
      have hc := hrev c (List.mem_reverse.mp (hcs ▸ List.mem_cons_self))
      cases rev with
      | nil => cases hcs
      | cons d rev =>
          rw [closeWord?, hcs, ofWord?_of_isBlank hc] at h
          · cases h
          · exact List.cons_ne_nil d rev

theorem scan_of_blanks {rev cs : List Char} {ps : List Piece}
    (hrev : ∀ c ∈ rev, Text.isBlank c = true) (hcs : ∀ c ∈ cs, Text.isBlank c = true)
    (h : scan (.word rev) cs = some ps) : ps = [] := by
  induction cs generalizing rev ps with
  | nil => exact closeWord?_of_blanks hrev h
  | cons c cs ih =>
      obtain ⟨hc, hcs⟩ := List.forall_mem_cons.mp hcs
      rw [scan, if_neg (ne_of_isBlank hc (by decide))] at h
      split at h
      case isTrue =>
        obtain ⟨qs, hclose, h⟩ := Option.bind_eq_some_iff.mp h
        obtain ⟨rs, hrest, rfl⟩ := Option.map_eq_some_iff.mp h
        rw [closeWord?_of_blanks hrev hclose, ih (List.forall_mem_nil _) hcs hrest]
        rfl
      case isFalse =>
        simp only [Piece.ofChar?_of_isBlank hc] at h
        exact ih (List.forall_mem_cons.mpr ⟨hc, hrev⟩) hcs h

theorem read?_of_isAllBlank {s : String} (h : Text.isAllBlank s = true) : read? s = none := by
  rw [read?]
  cases hscan : scan (.word []) s.toList with
  | none => rfl
  | some ps =>
      obtain rfl := scan_of_blanks (List.forall_mem_nil _) (List.all_eq_true.mp h) hscan
      rfl

end DiceTray.Json
