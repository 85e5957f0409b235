import DiceTray.Proofs.Json.Cut
import DiceTray.Proofs.Token.Reading
import DiceTray.Proofs.Tray.Table
import DiceTray.Repl

namespace DiceTray

theorem Text.isAllBlank_append (s t : String) :
    isAllBlank (s ++ t) = (isAllBlank s && isAllBlank t) := by
  rw [isAllBlank, String.toList_append, List.all_append]
  rfl

namespace Token

variable {before json : String} {tokens : List Token}

theorem isAllBlank_of_readAll (h : readAll json = .ok tokens) : Text.isAllBlank json = false := by
  obtain ⟨v, hv, -⟩ := Option.bind_eq_some_iff.mp (readAll_eq_ok_iff.mp h)
  cases hblank : Text.isAllBlank json with
  | false => rfl
  | true => cases hv.symm.trans (Json.read?_of_isAllBlank hblank)

theorem readAll_of_tab (h : readAll (before ++ "\t" ++ json) = .ok tokens) :
    readAll json = if before.toList.all Json.isGap then .ok tokens else .error .invalidJson := by
  obtain ⟨v, hv, hread⟩ := Option.bind_eq_some_iff.mp (readAll_eq_ok_iff.mp h)
  rw [readAll, Json.decode, Json.read?_of_tab hv]
  by_cases hgaps : before.toList.all Json.isGap = true
  · rw [if_pos hgaps, if_pos hgaps, Option.bind_some, hread]
  · rw [if_neg hgaps, if_neg hgaps]
    rfl

end Token

def Table.reply (options : DisplayOptions) (b : Table) : Repl.Reply :=
  match Tray.verdict? b.tokens with
  | some f => Repl.refusal f
  | none => Repl.report options b.expression b.tray

namespace Repl

section

variable {line before json : String}

theorem bne_tab_of_not_mem {cs : List Char} (h : '\t' ∉ cs) : ∀ c ∈ cs, (c != '\t') = true :=
  fun _ hc => bne_iff_ne.mpr (ne_of_mem_of_not_mem hc h)

theorem split_of_not_mem (h : '\t' ∉ line.toList) : split line = (none, line) := by
  have hdrop : line.toList.dropWhile (· != '\t') = [] :=
    List.dropWhile_eq_nil_iff.mpr (bne_tab_of_not_mem h)
  simp only [split, hdrop]

theorem split_append (h : '\t' ∉ before.toList) :
    split (before ++ "\t" ++ json) = (some before, json) := by
  have hall := bne_tab_of_not_mem h
  have hchars : (before ++ "\t" ++ json).toList = before.toList ++ '\t' :: json.toList := by simp
  simp only [split, hchars, List.dropWhile_append_of_pos hall, List.takeWhile_append_of_pos hall]
  simp

end

variable {σ : Type} (r : Roller σ) (options : DisplayOptions)

def evaluation (expression : String) (tokens : List Token) (s : σ) : Reply × σ :=
  ((Table.call { expression, tokens } (.roll r s)).reply options, (Tray.roll r tokens {} s).2.2)

def refused (f : Fault) (s : σ) : Reply × σ := (refusal f, s)

def leave (lines : List String) (s : σ) : σ :=
  lines.foldl (fun s line => (answer r options line s).2) s

/-- Among any other lines, the line is answered so, from where the lines before it have left the
draws, and the lines behind it go on from there. -/
def AnsweredBy (line : String) (turn : σ → Reply × σ) : Prop :=
  ∀ (earlier later : List String) (s : σ),
    answers r options (earlier ++ line :: later) s =
      answers r options earlier s ++ (turn (leave r options earlier s)).1 ::
        answers r options later (turn (leave r options earlier s)).2

theorem answers_append (xs ys : List String) (s : σ) :
    answers r options (xs ++ ys) s =
      answers r options xs s ++ answers r options ys (leave r options xs s) := by
  induction xs generalizing s with
  | nil => rfl
  | cons x xs ih =>
      simp only [List.cons_append, answers, ih]
      rfl

theorem answeredBy_of_eq {line : String} {turn : σ → Reply × σ}
    (h : answer r options line = turn) : AnsweredBy r options line turn := by
  subst h
  exact fun earlier later s => answers_append r options earlier (line :: later) s

theorem evaluation_eq (expression : String) (tokens : List Token) (s : σ) :
    evaluation r options expression tokens s =
      match Table.roll r { expression, tokens } s with
      | (.error f, _, s) => (refusal f, s)
      | (.ok _, b, s) => (report options b.expression b.tray, s) := by
  have hfails (f : Fault) :
      (Tray.roll r tokens {} s).1 = .error f ↔ Tray.verdict? tokens = some f :=
    Tray.roll_error_iff .start r s
  simp only [evaluation, Table.call, Table.roll_eq, Table.reply]
  cases hroll : Tray.roll r tokens {} s with
  | mk result after =>
      rw [hroll] at hfails
      cases result with
      | error f => rw [(hfails f).mp rfl]
      | ok n =>
          have hnone : Tray.verdict? tokens = none := by
            cases hv : Tray.verdict? tokens with
            | none => rfl
            | some f => cases (hfails f).mpr hv
          rw [hnone]

theorem answer_of_split {line json : String} {given : Option String}
    (hblank : Text.isAllBlank line = false) (hsplit : split line = (given, json)) :
    answer r options line =
      match Token.readAll json with
      | .error f => refused f
      | .ok tokens => evaluation r options (expression given tokens) tokens := by
  funext s
  rw [answer, if_neg (by rw [hblank]; decide)]
  simp only [hsplit]
  cases Token.readAll json with
  | error f => rfl
  | ok tokens => exact (evaluation_eq r options _ tokens s).symm

/-- Tokens are read from a line of their own or from what follows the first tab of a line. As the
line is cut at a tab before anything is read, tokens on a line of their own that hold a tab are
refused, or taken for those of a blank expression if only blanks stand before the tab. -/
theorem answeredBy_of_readAll {json : String} {tokens : List Token}
    (h : Token.readAll json = .ok tokens) :
    ('\t' ∉ json.toList →
      AnsweredBy r options json
        (evaluation r options (" ".intercalate (tokens.map Token.text)) tokens)) ∧
    (∀ expression : String, '\t' ∉ expression.toList →
      AnsweredBy r options (expression ++ "\t" ++ json) (evaluation r options expression tokens)) ∧
    ∀ before rest : String, '\t' ∉ before.toList → json = before ++ "\t" ++ rest →
      AnsweredBy r options json
        (if before.toList.all Json.isGap then evaluation r options before tokens
        else refused .invalidJson) := by
  have hblank := Token.isAllBlank_of_readAll h
  refine ⟨fun htab => ?_, fun expression htab => ?_, fun before rest htab hjson => ?_⟩
  · have hanswer := answer_of_split r options hblank (split_of_not_mem htab)
    rw [h] at hanswer
    exact answeredBy_of_eq r options hanswer
  · have hline : Text.isAllBlank (expression ++ "\t" ++ json) = false := by
      rw [Text.isAllBlank_append, hblank, Bool.and_false]
    have hanswer := answer_of_split r options hline (split_append htab)
    rw [h] at hanswer
    exact answeredBy_of_eq r options hanswer
  · subst hjson
    have hanswer := answer_of_split r options hblank (split_append htab)
    rw [Token.readAll_of_tab h] at hanswer
    by_cases hgaps : before.toList.all Json.isGap = true
    · rw [if_pos hgaps] at hanswer ⊢
      exact answeredBy_of_eq r options hanswer
    · rw [if_neg hgaps] at hanswer ⊢
      exact answeredBy_of_eq r options hanswer

theorem answeredBy_of_readAll_tabs :
    let r := Roller.replay [4, 2, 3]
    let escaped :=
      "[ \x7b\"data\":\"2d6\",\"original\":\"2d6\\t\",\"type\":\"dice\"\x7d, " ++
        "[\"dice\",\"1\",\"1\"],[\"+\",\"+\"] ]"
    let rest := "[\"dice\",\"1\",\"1\"],[\"+\",\"+\"]]"
    let tabbed := "[[\"dice\",\"2d6\",\"2d6\"]," ++ "\t" ++ rest
    let tokens (text : String) : List Token :=
      [⟨.dice, text, "2d6", []⟩, .dice "1", ⟨.operator .add, "+", "", []⟩]
    Token.readAll escaped = .ok (tokens "2d6\t") ∧
      AnsweredBy r {} escaped (evaluation r {} "2d6\t 1 +" (tokens "2d6\t")) ∧
      Token.readAll tabbed = .ok (tokens "2d6") ∧
      AnsweredBy r {} ("2d6 + 1" ++ "\t" ++ tabbed) (evaluation r {} "2d6 + 1" (tokens "2d6")) ∧
      (evaluation r {} "2d6 + 1" (tokens "2d6") 0).1 =
        { shown := ["8", "2d6 + 1\n[3, 4] + 1"] } ∧
      AnsweredBy r {} tabbed (refused .invalidJson) ∧
      AnsweredBy r {} (" " ++ "\t" ++ escaped) (evaluation r {} " " (tokens "2d6\t")) := by
  intro r escaped rest tabbed tokens
  have hescaped : Token.readAll escaped = .ok (tokens "2d6\t") :=
    Token.readAll_eq_ok_iff.mpr (by decide +kernel)
  have htabbed : Token.readAll tabbed = .ok (tokens "2d6") :=
    Token.readAll_eq_ok_iff.mpr (by decide +kernel)
  have hblank : Token.readAll (" " ++ "\t" ++ escaped) = .ok (tokens "2d6\t") :=
    Token.readAll_eq_ok_iff.mpr (by decide +kernel)
  have hshown : (evaluation r {} "2d6 + 1" (tokens "2d6") 0).1 =
      { shown := ["8", "2d6 + 1\n[3, 4] + 1"] } := by decide +kernel
  have hbare := (answeredBy_of_readAll r {} hescaped).1 (by decide)
  obtain ⟨-, hgiven, hcut⟩ := answeredBy_of_readAll r {} htabbed
  have hafter := (answeredBy_of_readAll r {} hblank).2.2 " " escaped (by decide) rfl
  exact ⟨hescaped, hbare, htabbed, hgiven "2d6 + 1" (by decide), hshown,
    hcut "[[\"dice\",\"2d6\",\"2d6\"]," rest (by decide) rfl, hafter⟩

theorem refused_of_tab_between_tokens :
    let r := Roller.replay []
    let json := "[\t\x7b\"type\":\"dice\",\"original\":\"2\",\"data\":\"2\"\x7d]"
    Token.readAll json = .ok [.dice "2"] ∧
      answers r {} [json] 0 = [refusal .invalidJson] ∧
      (evaluation r {} "2" [.dice "2"] 0).1 = { shown := ["2", "2\n2"] } ∧
      ¬ AnsweredBy r {} json (evaluation r {} "2" [.dice "2"]) := by
  intro r json
  have hread : Token.readAll json = .ok [.dice "2"] :=
    Token.readAll_eq_ok_iff.mpr (by decide +kernel)
  have hanswers : answers r {} [json] 0 = [refusal .invalidJson] := by decide +kernel
  have hclaimed : (evaluation r {} "2" [.dice "2"] 0).1 = { shown := ["2", "2\n2"] } := by
    decide +kernel
  refine ⟨hread, hanswers, hclaimed, fun h => ?_⟩
  have hreply := h [] [] 0
  rw [List.nil_append, hanswers] at hreply
  cases (List.cons.inj hreply).1.trans hclaimed

end Repl

end DiceTray
