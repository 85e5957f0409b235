import DiceTray.Json.Record
import DiceTray.Proofs.Json.Numeral

namespace DiceTray.Json

open Decimal

def Inner (c : Char) : Prop := c ≠ '"' ∧ isGap c = false ∧ Piece.ofChar? c = none

instance (c : Char) : Decidable (Inner c) := inferInstanceAs (Decidable (_ ∧ _ ∧ _))

def Ends (cs : List Char) : Prop := ∀ c ∈ cs.head?, (Piece.ofChar? c).isSome

theorem ends_nil : Ends [] := nofun

theorem ends_cons {c : Char} (h : (Piece.ofChar? c).isSome) (cs : List Char) : Ends (c :: cs) :=
  fun x hx => by
    cases hx
    exact h

section

variable {rest : List Char}

theorem inner_of_mem_text {n : Numeral} {c : Char} (h : c ∈ n.text) : Inner c := by
  have hdigit (d : Digit) : Inner d.char := by
    revert d
    decide
  have hdigits {ds : List Digit} (hc : c ∈ ds.map Digit.char) : Inner c := by
    obtain ⟨d, -, rfl⟩ := List.mem_map.mp hc
    exact hdigit d
  have hmagnitude (hc : c ∈ n.magnitude) : Inner c := by
    rw [Numeral.magnitude, List.mem_append, List.mem_append] at hc
    rcases hc with (hc | hc) | hc
    · exact hdigits hc
    · cases hf : n.fraction with
      | none =>
          rw [hf] at hc
          cases hc
      | some ds =>
          rw [hf] at hc
          rcases List.mem_cons.mp hc with rfl | hc
          · decide
          · exact hdigits hc
    · cases he : n.exponent with
      | none =>
          rw [he] at hc
          cases hc
      | some e =>
          rw [he] at hc
          rcases List.mem_cons.mp hc with rfl | hc
          · decide
          · rcases List.mem_cons.mp hc with rfl | hc
            · split <;> decide
            · exact hdigits hc
  rw [Numeral.text_eq, Numeral.signed] at h
  split at h
  · rcases List.mem_cons.mp h with rfl | hc
    · decide
    · exact hmagnitude hc
  · exact hmagnitude h

theorem inner_of_all {w : List Char} (h : w.all (fun c => decide (Inner c)) = true) :
    ∀ c ∈ w, Inner c := fun c hc => of_decide_eq_true (List.all_eq_true.mp h c hc)

theorem scan_inner {w : List Char} (h : ∀ c ∈ w, Inner c) (rev rest : List Char) :
    scan (.word rev) (w ++ rest) = scan (.word (w.reverse ++ rev)) rest := by
  induction w generalizing rev with
  | nil => rfl
  | cons c w ih =>
      obtain ⟨hquote, hgap, hpiece⟩ := h c (by simp)
      have hnext := ih (fun d hd => h d (by simp [hd])) (c :: rev)
      simp only [List.cons_append, scan, hquote, if_false, hgap, Bool.false_eq_true, hpiece, hnext,
        List.reverse_cons, List.append_assoc, List.nil_append]

theorem scan_mark {c : Char} {p : Piece} (h : Piece.ofChar? c = some p) (rev rest : List Char) :
    scan (.word rev) (c :: rest) =
      (closeWord? rev).bind fun ps => (scan (.word []) rest).map fun qs => ps ++ p :: qs := by
  have hquote : c ≠ '"' := by
    rintro rfl
    cases h
  have hgap : isGap c = false := by
    simp only [isGap, Bool.or_eq_false_iff, decide_eq_false_iff_not]
    refine ⟨⟨⟨?_, ?_⟩, ?_⟩, ?_⟩ <;>
    · rintro rfl
      cases h
  simp only [scan, hquote, if_false, hgap, Bool.false_eq_true, h]

theorem scan_of_ends (h : Ends rest) (rev : List Char) :
    scan (.word rev) rest =
      (closeWord? rev).bind fun ps => (scan (.word []) rest).map (ps ++ ·) := by
  cases rest with
  | nil => simp [scan, closeWord?]
  | cons c rest =>
      obtain ⟨p, hp⟩ := Option.isSome_iff_exists.mp (h c rfl)
      rw [scan_mark hp, scan_mark hp]
      simp [closeWord?, Function.comp_def]

theorem scan_word {w : List Char} {x : Scalar} (hw : ∀ c ∈ w, Inner c)
    (hx : Scalar.ofWord? w = some x) (h : Ends rest) :
    scan (.word []) (w ++ rest) = (scan (.word []) rest).map (.scalar x :: ·) := by
  have hclose : closeWord? (w.reverse ++ []) = some [.scalar x] := by
    cases hrev : w.reverse ++ [] with
    | nil =>
        obtain rfl : w = [] := by simpa using hrev
        cases hx
    | cons c cs =>
        rw [closeWord?, ← hrev, List.append_nil, List.reverse_reverse, hx]
        · rfl
        · exact nofun
  rw [scan_inner hw, scan_of_ends h, hclose]
  rfl

theorem hexUnit?_unitText (n : Nat) (h : n < 0x20) :
    Text.hexUnit? (Text.hexDigit (n / 4096)) (Text.hexDigit (n / 256)) (Text.hexDigit (n / 16))
      (Text.hexDigit n) = some n := by
  revert n
  decide

theorem pushUnit_of_lt (n : Nat) (h : n < 0x20) (rev : List Char) :
    Text.pushUnit n (rev.map .char) = .char (Char.ofNat n) :: rev.map .char := by
  have hlow : (Text.isLow n || Text.isHigh n) = false := by
    simp only [Text.isLow, Text.isHigh, Bool.or_eq_false_iff, Bool.and_eq_false_iff,
      decide_eq_false_iff_not]
    omega
  cases rev with
  | nil => simp [Text.pushUnit, hlow]
  | cons c rev => simp [Text.pushUnit, hlow]

theorem scan_string_char {c : Char} (hquote : c ≠ '"') (hslash : c ≠ '\\') (rev : Text) :
    scan (.string rev) (c :: rest) =
      if c.toNat < 0x20 then none else scan (.string (.char c :: rev)) rest := by
  rw [scan]
  · simp only [hslash, or_false]
  · exact fun _ _ _ _ _ h => absurd h hslash
  · exact fun _ _ h => absurd h hslash
  · exact hquote

theorem scan_charText (c : Char) (rev rest : List Char) :
    scan (.string (rev.map .char)) (Text.charText c ++ rest) =
      scan (.string ((c :: rev).map .char)) rest := by
  unfold Text.charText
  split_ifs with hquote hslash hback hfeed hline hreturn htab hcontrol
  · subst hquote; rfl
  · subst hslash; rfl
  · subst hback; rfl
  · subst hfeed; rfl
  · subst hline; rfl
  · subst hreturn; rfl
  · subst htab; rfl
  · simp only [Text.unitText, List.cons_append, List.nil_append, scan,
      hexUnit?_unitText _ hcontrol, pushUnit_of_lt _ hcontrol, Char.ofNat_toNat, List.map_cons]
  · rw [List.singleton_append, scan_string_char hquote hslash, if_neg hcontrol]
    rfl

theorem scan_string (cs rev rest : List Char) :
    scan (.string (rev.map .char)) (cs.flatMap Text.charText ++ '"' :: rest) =
      (scan (.word []) rest).map (.scalar (.string ((rev.reverse ++ cs).map .char)) :: ·) := by
  induction cs generalizing rev with
  | nil => simp [scan, List.map_reverse]
  | cons c cs ih =>
      rw [List.flatMap_cons, List.append_assoc, scan_charText, ih, List.reverse_cons,
        List.append_assoc, List.singleton_append]

end

inductive Scalar.Strict : Scalar → Prop where
  | null : Strict .null
  | bool (b : Bool) : Strict (.bool b)
  | number {n : Numeral} (h : n.Strict) : Strict (.number n)
  | string (s : String) : Strict (.string (Text.ofString s))

theorem ofWord?_text {n : Numeral} (h : n.Strict) : Scalar.ofWord? n.text = some (.number n) := by
  have hread := numeral?_text h
  have hword {w : List Char} (hw : numeral? w = none) : n.text ≠ w := by
    rintro rfl
    cases hread.symm.trans hw
  rw [Scalar.ofWord?, if_neg (hword rfl), if_neg (hword rfl), if_neg (hword rfl), hread]
  rfl

theorem scan_scalar {x : Scalar} (hx : x.Strict) {rest : List Char} (h : Ends rest) :
    scan (.word []) (x.chars ++ rest) = (scan (.word []) rest).map (.scalar x :: ·) := by
  cases hx with
  | null =>
      change scan _ (nullWord ++ rest) = _
      exact scan_word (inner_of_all (by decide)) rfl h
  | bool b =>
      cases b with
      | true =>
          change scan _ (trueWord ++ rest) = _
          exact scan_word (inner_of_all (by decide)) rfl h
      | false =>
          change scan _ (falseWord ++ rest) = _
          exact scan_word (inner_of_all (by decide)) rfl h
  | number hn => exact scan_word (fun c hc => inner_of_mem_text hc) (ofWord?_text hn) h
  | string s =>
      have hchars : (Text.ofString s).flatMap Text.glyphText = s.toList.flatMap Text.charText := by
        rw [Text.ofString, List.flatMap_map]
        rfl
      change scan _ ('"' :: ((Text.ofString s).flatMap Text.glyphText ++ ['"']) ++ rest) = _
      rw [hchars, List.cons_append, List.append_assoc, List.singleton_append, scan, if_pos rfl]
      exact (congrFun Option.map_id _).trans (scan_string s.toList [] rest)

namespace Piece

def IsMark (p : Piece) : Prop := ∀ x, p ≠ .scalar x

theorem IsMark.exists_char {p : Piece} (h : p.IsMark) :
    ∃ c, p.chars = [c] ∧ ofChar? c = some p := by
  cases p with
  | scalar x => exact absurd rfl (h x)
  | _ => exact ⟨_, rfl, rfl⟩

def MarkFirst (ps : List Piece) : Prop := ∀ p ∈ ps.head?, p.IsMark

theorem markFirst_cons (p : Piece) (h : p.IsMark) (ps : List Piece) : MarkFirst (p :: ps) :=
  fun q hq => by
    cases hq
    exact h

def Apart : List Piece → Prop
  | [] => True
  | .scalar x :: ps => x.Strict ∧ MarkFirst ps ∧ Apart ps
  | _ :: ps => Apart ps

theorem ends_of_markFirst {ps : List Piece} (h : MarkFirst ps) : Ends (ps.flatMap chars) := by
  cases ps with
  | nil => exact ends_nil
  | cons p ps =>
      obtain ⟨c, hc, hp⟩ := (h p rfl).exists_char
      rw [List.flatMap_cons, hc]
      exact ends_cons (by rw [hp]; rfl) _

theorem scan_of_apart {ps : List Piece} (h : Apart ps) :
    scan (.word []) (ps.flatMap chars) = some ps := by
  induction ps with
  | nil => rfl
  | cons p ps ih =>
      rw [List.flatMap_cons]
      by_cases hp : p.IsMark
      · obtain ⟨c, hc, hread⟩ := hp.exists_char
        have hps : Apart ps := by
          cases p with
          | scalar x => exact absurd rfl (hp x)
          | _ => exact h
        rw [hc, List.singleton_append, scan_mark hread, ih hps]
        rfl
      · simp only [IsMark, ne_eq, not_forall, not_not] at hp
        obtain ⟨x, rfl⟩ := hp
        obtain ⟨hx, hmark, hps⟩ := h
        rw [chars, scan_scalar hx (ends_of_markFirst hmark), ih hps]
        rfl

end Piece

namespace Value

open Piece

section

variable (v w : Value) (vs : List Value) (name : Text) (m : Text × Value)
  (ms : List (Text × Value)) (rest : List Piece)

theorem pieces_array_append : (array vs).pieces ++ rest =
    .openArray :: (itemPieces vs ++ .closeArray :: rest) := by
  simp [pieces]

theorem pieces_object_append : (object ms).pieces ++ rest =
    .openObject :: (memberPieces ms ++ .closeObject :: rest) := by
  simp [pieces]

theorem itemPieces_cons_append : itemPieces (v :: w :: vs) ++ rest =
    v.pieces ++ .comma :: (itemPieces (w :: vs) ++ rest) := by
  simp [itemPieces]

theorem memberPieces_cons_append : memberPieces ((name, v) :: m :: ms) ++ rest =
    .scalar (.string name) :: .colon ::
      (v.pieces ++ .comma :: (memberPieces (m :: ms) ++ rest)) := by
  simp [memberPieces]

end

def Strict (v : Value) : Prop := ∀ x, .scalar x ∈ v.pieces → x.Strict

mutual

theorem apart_pieces (v : Value) (h : v.Strict) {rest : List Piece}
    (hrest : Apart rest) (hmark : MarkFirst rest) : Apart (v.pieces ++ rest) := by
  match v with
  | .scalar x => exact ⟨h x (by simp [pieces]), hmark, hrest⟩
  | .array vs =>
      rw [pieces_array_append]
      exact apart_itemPieces vs (fun x hx => h x (by simp [pieces, hx])) hrest
        (markFirst_cons .closeArray nofun rest)
  | .object ms =>
      rw [pieces_object_append]
      exact apart_memberPieces ms (fun x hx => h x (by simp [pieces, hx])) hrest
        (markFirst_cons .closeObject nofun rest)

theorem apart_itemPieces (vs : List Value) (h : ∀ x, .scalar x ∈ itemPieces vs → x.Strict)
    {rest : List Piece} (hrest : Apart rest) (hmark : MarkFirst rest) :
    Apart (itemPieces vs ++ rest) := by
  match vs with
  | [] => exact hrest
  | [v] => exact apart_pieces v h hrest hmark
  | v :: w :: vs =>
      have hitems := apart_itemPieces (w :: vs) (fun x hx => h x (by simp [itemPieces, hx])) hrest
        hmark
      rw [itemPieces_cons_append]
      exact apart_pieces v (fun x hx => h x (by simp [itemPieces, hx])) hitems
        (markFirst_cons .comma nofun _)

theorem apart_memberPieces (ms : List (Text × Value))
    (h : ∀ x, .scalar x ∈ memberPieces ms → x.Strict)
    {rest : List Piece} (hrest : Apart rest) (hmark : MarkFirst rest) :
    Apart (memberPieces ms ++ rest) := by
  match ms with
  | [] => exact hrest
  | [(name, v)] =>
      have hv := apart_pieces v (fun x hx => h x (by simp [memberPieces, hx])) hrest hmark
      exact ⟨h _ (by simp [memberPieces]), markFirst_cons .colon nofun _, hv⟩
  | (name, v) :: m :: ms =>
      have hmembers : Apart (.comma :: (memberPieces (m :: ms) ++ rest)) :=
        apart_memberPieces (m :: ms) (fun x hx => h x (by simp [memberPieces, hx])) hrest hmark
      have hcomma := markFirst_cons .comma nofun (memberPieces (m :: ms) ++ rest)
      have hv := apart_pieces v (fun x hx => h x (by simp [memberPieces, hx])) hmembers hcomma
      rw [memberPieces_cons_append]
      exact ⟨h _ (by simp [memberPieces]), markFirst_cons .colon nofun _, hv⟩

end

end Value

namespace Stage

open Value

theorem run?_item (v : Value) (frames : List Frame) (rest : List Piece) :
    run? (.item frames) (v.pieces ++ rest) =
      run? (.value (.array [] :: frames)) (v.pieces ++ rest) := by
  cases v <;> rfl

theorem run?_item_itemPieces {vs : List Value} (h : vs ≠ []) (frames : List Frame)
    (rest : List Piece) :
    run? (.item frames) (itemPieces vs ++ rest) =
      run? (.value (.array [] :: frames)) (itemPieces vs ++ rest) := by
  match vs with
  | [] => exact absurd rfl h
  | [v] => exact run?_item v frames rest
  | v :: w :: vs =>
      rw [itemPieces_cons_append]
      exact run?_item v frames _

theorem run?_member {ms : List (Text × Value)} (h : ms ≠ []) (frames : List Frame)
    (rest : List Piece) :
    run? (.member frames) (memberPieces ms ++ rest) =
      run? (.nextName [] frames) (memberPieces ms ++ rest) := by
  match ms with
  | [] => exact absurd rfl h
  | [(name, v)] => rfl
  | (name, v) :: m :: ms => rfl

mutual

theorem run?_value (v : Value) (frames : List Frame) (rest : List Piece) :
    run? (.value frames) (v.pieces ++ rest) = run? (.done v frames) rest := by
  match v with
  | .scalar x => rfl
  | .array [] => rfl
  | .array (v :: vs) =>
      rw [pieces_array_append]
      change run? (.item frames) _ = _
      rw [run?_item_itemPieces (by simp), run?_items (v :: vs) (by simp) [] frames rest]
      rfl
  | .object [] => rfl
  | .object (m :: ms) =>
      rw [pieces_object_append]
      change run? (.member frames) _ = _
      rw [run?_member (by simp), run?_members (m :: ms) (by simp) [] frames rest]
      rfl

-- In the next two the frame that is open has already taken what `rev` holds.

theorem run?_items (vs : List Value) (h : vs ≠ []) (rev : List Value) (frames : List Frame)
    (rest : List Piece) :
    run? (.value (.array rev :: frames)) (itemPieces vs ++ .closeArray :: rest) =
      run? (.done (.array (rev.reverse ++ vs)) frames) rest := by
  match vs with
  | [] => exact absurd rfl h
  | [v] =>
      rw [itemPieces, run?_value v]
      change run? (.done (.array (v :: rev).reverse) frames) rest = _
      rw [List.reverse_cons]
  | v :: w :: vs =>
      rw [itemPieces_cons_append, run?_value v]
      change run? (.value (.array (v :: rev) :: frames)) _ = _
      rw [run?_items (w :: vs) (by simp), List.reverse_cons, List.append_assoc,
        List.singleton_append]

theorem run?_members (ms : List (Text × Value)) (h : ms ≠ []) (rev : List (Text × Value))
    (frames : List Frame) (rest : List Piece) :
    run? (.nextName rev frames) (memberPieces ms ++ .closeObject :: rest) =
      run? (.done (.object (rev.reverse ++ ms)) frames) rest := by
  match ms with
  | [] => exact absurd rfl h
  | [(name, v)] =>
      rw [memberPieces]
      change run? (.value (.object rev name :: frames)) (v.pieces ++ .closeObject :: rest) = _
      rw [run?_value v]
      change run? (.done (.object ((name, v) :: rev).reverse) frames) rest = _
      rw [List.reverse_cons]
  | (name, v) :: m :: ms =>
      rw [memberPieces_cons_append]
      change run? (.value (.object rev name :: frames)) (v.pieces ++ .comma :: _) = _
      rw [run?_value v]
      change run? (.nextName ((name, v) :: rev) frames) _ = _
      rw [run?_members (m :: ms) (by simp), List.reverse_cons, List.append_assoc,
        List.singleton_append]

end

end Stage

theorem ofPieces?_pieces (v : Value) : ofPieces? v.pieces = some v := by
  have hrun := Stage.run?_value v [] []
  rw [List.append_nil] at hrun
  rw [ofPieces?, hrun]
  rfl

theorem read?_text {v : Value} (h : v.Strict) : read? v.text = some v := by
  have hapart : Piece.Apart (v.pieces ++ []) := Value.apart_pieces v h trivial nofun
  rw [List.append_nil] at hapart
  rw [read?, Value.text, String.toList_ofList, Value.chars, Piece.scan_of_apart hapart]
  exact ofPieces?_pieces v

end DiceTray.Json
