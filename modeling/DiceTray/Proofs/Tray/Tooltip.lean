import DiceTray.Proofs.Tray.Restored
import DiceTray.Text.Replace

namespace DiceTray

namespace Text

variable {pattern before : List Char}

def FirstAfter (before pattern : List Char) : Prop :=
  ∀ i < before.length, ¬ pattern <+: (before ++ pattern).drop i

instance (before pattern : List Char) : Decidable (FirstAfter before pattern) :=
  inferInstanceAs (Decidable (∀ i < before.length, ¬ pattern <+: (before ++ pattern).drop i))

theorem FirstAfter.tail {c : Char} (h : FirstAfter (c :: before) pattern) :
    FirstAfter before pattern := fun i hi => h (i + 1) (Nat.succ_lt_succ hi)

theorem after?_eq_none_of_firstAfter {c : Char} (h : FirstAfter (c :: before) pattern)
    (rest : List Char) : after? pattern (c :: before ++ (pattern ++ rest)) = none := by
  cases ha : after? pattern (c :: before ++ (pattern ++ rest)) with
  | none => rfl
  | some tail =>
      have hall : pattern <+: c :: before ++ (pattern ++ rest) :=
        ⟨tail, (after?_eq_some_iff.mp ha).symm⟩
      have hhead : pattern <+: c :: before ++ pattern := by
        refine List.prefix_of_prefix_length_le hall ?_ ?_
        · rw [← List.append_assoc]
          exact List.prefix_append ..
        · rw [List.length_append]
          exact Nat.le_add_left ..
      exact absurd hhead (h 0 (Nat.succ_pos _))

theorem replaceFirst_of_firstAfter (h : FirstAfter before pattern)
    (replacement rest : List Char) :
    replaceFirst pattern replacement (before ++ (pattern ++ rest)) =
      before ++ (replacement ++ rest) := by
  induction before with
  | nil => exact replaceFirst_append pattern replacement rest
  | cons c before ih =>
      have hnone := after?_eq_none_of_firstAfter h rest
      rw [List.cons_append] at hnone
      rw [List.cons_append, replaceFirst, hnone, ih h.tail]
      rfl

theorem replaceFirst_self (pattern text : List Char) :
    replaceFirst pattern pattern text = text := by
  induction text with
  | nil =>
      rw [replaceFirst]
      split
      case h_1 ha => exact (after?_eq_some_iff.mp ha).symm
      case h_2 => rfl
  | cons c cs ih =>
      rw [replaceFirst]
      split
      case h_1 ha => exact (after?_eq_some_iff.mp ha).symm
      case h_2 => rw [ih]

def weave (start : List Char) (words : List (List Char × List Char)) : List Char :=
  start ++ words.flatMap fun w => w.1 ++ w.2

theorem weave_cons (start word gap : List Char) (words : List (List Char × List Char)) :
    weave start ((word, gap) :: words) = start ++ (word ++ weave gap words) := by
  simp [weave]

theorem append_weave (a b : List Char) (words : List (List Char × List Char)) :
    a ++ weave b words = weave (a ++ b) words := by
  simp [weave]

end Text

namespace Tray

open Text

/-- Behind `before`, in which the dice of the earlier pools are already written, every pool's own
text is the first occurrence of it, or shows nothing else than its dice do. -/
def Placed (before : List Char) : List (Pool × List Char) → Prop
  | [] => True
  | (p, gap) :: rest =>
      (FirstAfter before p.source.toList ∨ p.chars = p.source.toList) ∧
        Placed (before ++ (p.chars ++ gap)) rest

theorem substitute_cons (p : Pool) (ps : List Pool) (cs : List Char) :
    substitute (p :: ps) cs = substitute ps (replaceFirst p.source.toList p.chars cs) := rfl

theorem substitute_weave {before : List Char} {ps : List Pool} {gaps : List (List Char)}
    (hlen : gaps.length = ps.length) (h : Placed before (ps.zip gaps)) :
    substitute ps (weave before ((ps.map fun p => p.source.toList).zip gaps)) =
      weave before ((ps.map Pool.chars).zip gaps) := by
  induction ps generalizing before gaps with
  | nil => rfl
  | cons p ps ih =>
      obtain _ | ⟨gap, gaps⟩ := gaps
      · cases hlen
      obtain ⟨hp, hrest⟩ := h
      -- the pools after this one do not matter, as only what stands before it is searched
      have hwritten (words : List (List Char × List Char)) :
          replaceFirst p.source.toList p.chars
              (before ++ (p.source.toList ++ weave gap words)) =
            before ++ (p.chars ++ weave gap words) := by
        rcases hp with hfirst | hself
        · exact replaceFirst_of_firstAfter hfirst ..
        · rw [hself, replaceFirst_self]
      rw [List.map_cons, List.map_cons, List.zip_cons_cons, List.zip_cons_cons, weave_cons,
        weave_cons, substitute_cons, hwritten, append_weave, append_weave, append_weave,
        append_weave, ih (Nat.succ.inj hlen) hrest]

section

variable {σ : Type} {r : Roller σ} {tokens : List Token} {t : Tray} {s : σ} {k : Nat}

theorem map_source_of_roll_ok (h : Session tokens k t) {n : Number}
    (hn : (t.roll r tokens s).1 = .ok n) :
    (t.roll r tokens s).2.1.pools.map Pool.source = (Token.poolTokens tokens).map Token.text := by
  have hstocked := stocked_session h
  have hblank := (roll_of_readable hstocked (readable_of_roll_ok hstocked hn) r s).1
  refine List.ext_getElem? fun i => ?_
  have hi := congrArg (·[i]?) hblank
  simp only [List.getElem?_map] at hi ⊢
  cases hp : (t.roll r tokens s).2.1.pools[i]? with
  | none => cases hu : (Token.poolTokens tokens)[i]? <;> simp_all
  | some p =>
      cases hu : (Token.poolTokens tokens)[i]? with
      | none => simp_all
      | some u =>
          rw [hp, hu] at hi
          have hasked := Pool.askedBy_of_blank? (Option.some.inj hi).symm
          exact congrArg some hasked.source

theorem tooltip_of_roll_ok {n : Number} (hn : (t.roll r tokens s).1 = .ok n)
    (expression : String) :
    (t.roll r tokens s).2.1.tooltip expression = expression ++ "\n" ++
      String.ofList (substitute (t.roll r tokens s).2.1.pools expression.toList) := by
  rw [tooltip, restored_of_roll_ok hn]

/-- The line below the expression is the expression with the dice of each pool in the place of its
own text, if no text of a pool occurs earlier in the line that the pools before it have left. -/
theorem tooltip_of_placed (h : Session tokens k t) {n : Number}
    (hn : (t.roll r tokens s).1 = .ok n) {expression : String} {start : List Char}
    {gaps : List (List Char)} (hlen : gaps.length = (Token.poolTokens tokens).length)
    (hexpression : expression.toList =
      weave start (((Token.poolTokens tokens).map fun u => u.text.toList).zip gaps))
    (hplaced : Placed start ((t.roll r tokens s).2.1.pools.zip gaps)) :
    (t.roll r tokens s).2.1.tooltip expression = expression ++ "\n" ++
      String.ofList (weave start (((t.roll r tokens s).2.1.pools.map Pool.chars).zip gaps)) := by
  have hsource : (Token.poolTokens tokens).map (fun u => u.text.toList) =
      (t.roll r tokens s).2.1.pools.map fun p => p.source.toList := by
    have htext := congrArg (List.map String.toList) (map_source_of_roll_ok h hn)
    rw [List.map_map, List.map_map] at htext
    exact htext.symm
  have hpools := hlen.trans (length_pools_of_roll_ok (stocked_session h) hn).symm
  rw [tooltip_of_roll_ok hn, hexpression, hsource, substitute_weave hpools hplaced]

theorem tooltip_of_placed_stunt :
    let tokens : List Token := [.dice "2d6", .stunt "s", .math .add, .dice "3", .math .sub]
    let rolled := ({} : Tray).roll (Roller.replay [2, 4, 2, 3, 5]) tokens 0
    let gaps := [" + ".toList, " - ".toList, []]
    Placed [] (rolled.2.1.pools.zip gaps) ∧
      rolled.2.1.tooltip "2d6 + s - 3" = "2d6 + s - 3\n[3, 5] + [2S, 4, 2] - 3" := by
  intro tokens rolled gaps
  have hplaced : Placed [] (rolled.2.1.pools.zip gaps) :=
    ⟨.inl (by decide), .inl (by decide), .inr (by decide), trivial⟩
  refine ⟨hplaced, (tooltip_of_placed .start rfl ?_ ?_ hplaced).trans ?_⟩
  · decide
  · decide
  · decide

theorem tooltip_of_roll_ok_text_in_dice :
    let tokens : List Token := [.dice "100", .dice "00", .math .add]
    let rolled := ({} : Tray).roll (Roller.replay []) tokens 0
    let gaps := [" + ".toList, []]
    rolled.1 = .ok (.int 100) ∧
      "100 + 00".toList =
        weave [] (((Token.poolTokens tokens).map fun u => u.text.toList).zip gaps) ∧
      (¬ "100".toList <:+: [] ∧ ¬ "00".toList <:+: [] ∧ ¬ "00".toList <:+: " + ".toList) ∧
      rolled.2.1.tooltip "100 + 00" = "100 + 00\n10 + 00" ∧
      "100 + 00" ++ "\n" ++
          String.ofList (weave [] ((rolled.2.1.pools.map Pool.chars).zip gaps)) =
        "100 + 00\n100 + 0" := by
  intro tokens rolled gaps
  refine ⟨rfl, ?_, ?_, ?_, ?_⟩
  · decide
  · decide
  · decide
  · decide

end

end Tray

end DiceTray
