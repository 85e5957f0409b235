import DiceTray.Proofs.Pool.Since

namespace DiceTray

structure Sheet where
  source : String
  meaning : Notation
  hand : Hand := []
  modifiers : Modifiers := {}
  conditions : List Condition := []

namespace Pool

def sheet (p : Pool) : Sheet := ⟨p.source, denotation p, p.hand, p.modifiers, p.conditions⟩

end Pool

namespace Sheet

variable {σ : Type}

/-- Work on a sheet in place. What was written or drawn before a refusal stays. -/
abbrev Work (σ : Type) := ExceptT Fault (StateM (Sheet × σ))

def faces : Work σ Faces := do
  match (← get).1.meaning with
  | .fixed _ => throw .modifiersNotAllowed
  | .dice _ faces => return faces

def write (f : Sheet → Sheet) : Work σ Unit := modify fun (sheet, s) => (f sheet, s)

def redraw (f : Hand → σ → Hand × σ) : Work σ Unit := modify fun (sheet, s) =>
  let (hand, s) := f sheet.hand s
  ({ sheet with hand }, s)

def changing (f : Sheet → Sheet) : Work σ (List Number) := do
  let _ ← faces
  write f
  return []

def drawing (f : Faces → Hand → σ → Hand × σ) : Work σ (List Number) := do
  let faces ← faces
  redraw (f faces)
  return []

def roll (r : Roller σ) : Work σ (List Number) := do
  match (← get).1.meaning with
  | .fixed value => return [value]
  | .dice count faces =>
      redraw fun _ s => Hand.draw r faces count s
      let values := (← get).1.hand.values
      redraw (Dice.applyAll r faces (← get).1.modifiers Phase.all)
      write fun sheet => { sheet with hand := sheet.hand.countSuccesses sheet.conditions }
      return values.map .int

def perform (r : Roller σ) : Operation → Work σ (List Number)
  | .keepHigh n => changing fun sheet => { sheet with hand := sheet.hand.keepHigh n }
  | .keepLow n => changing fun sheet => { sheet with hand := sheet.hand.keepLow n }
  | .reroll times conditions =>
      drawing fun faces hand =>
        hand.reroll r faces times (trigger conditions (.equalTo faces.low))
  | .explode times conditions =>
      drawing fun faces hand =>
        hand.explode r faces times (trigger conditions (.equalTo faces.high))
  | .explodeInto times conditions =>
      drawing fun faces hand =>
        hand.explodeInto r faces times (trigger conditions (.equalTo faces.high))
  | .countSuccesses conditions =>
      changing fun sheet => { sheet with hand := sheet.hand.countSuccesses conditions }
  | .setModifier phase m =>
      changing fun sheet => { sheet with modifiers := sheet.modifiers.set m phase }
  | .setConditions conditions => changing fun sheet => { sheet with conditions }
  | .roll => roll r

end Sheet

structure Turn where
  {σ : Type}
  roller : Roller σ
  state : σ
  op : Operation

namespace Turn

def values (t : Turn) (p : Pool) : List Number :=
  match t.op with
  | .roll => (p.roll t.roller t.state).1
  | _ => []

def handle (t : Turn) (p : Pool) : Except Fault (List Number) × Pool × t.σ :=
  match t.op.run t.roller p t.state with
  | .ok (q, s) => (.ok (t.values p), q, s)
  | .error f => (.error f, p, t.state)

def perform (t : Turn) (sheet : Sheet) : Except Fault (List Number) × Sheet × t.σ :=
  (Sheet.perform t.roller t.op).run.run (sheet, t.state)

variable {p : Pool} {d : Dice}

theorem perform_sheet (t : Turn) (p : Pool) :
    t.perform p.sheet = ((t.handle p).1, (t.handle p).2.1.sheet, (t.handle p).2.2) := by
  rcases t with ⟨roller, state, op⟩
  rcases p with ⟨source, value | d | d⟩ <;> cases op <;> rfl

theorem handle_literal (t : Turn) (value : Number) (source : String) :
    (t.handle (.literal value source)).2 = (.literal value source, t.state) ∧
      (t.op = .roll → (t.handle (.literal value source)).1 = .ok [value]) ∧
      (t.op ≠ .roll → (t.handle (.literal value source)).1 = .error .modifiersNotAllowed) := by
  rcases t with ⟨roller, state, op⟩
  cases op with
  | roll => exact ⟨rfl, fun _ => rfl, fun h => absurd rfl h⟩
  | _ => exact ⟨rfl, nofun, fun _ => rfl⟩

theorem handle_of_dice (h : p.dice? = some d) (t : Turn) :
    ∃ e s, t.handle p = (.ok (t.values p), p.withDice e, s) ∧ e.count = d.count ∧
      e.faces = d.faces := by
  obtain ⟨q, s, hq⟩ := Operation.exists_run_of_dice (r := t.roller) h t.op t.state
  obtain ⟨e, rfl, hcount, hfaces, -, -⟩ := Operation.exists_of_run h hq
  refine ⟨e, s, ?_, hcount, hfaces⟩
  rw [handle, hq]

end Turn

def Sheet.after (sheet : Sheet) (ts : List Turn) : Sheet :=
  ts.foldl (fun sheet t => (t.perform sheet).2.1) sheet

namespace Pool

def after (p : Pool) (ts : List Turn) : Pool := ts.foldl (fun p t => (t.handle p).2.1) p

variable {p : Pool} {value : Number} {d : Dice}

theorem sheet_after (p : Pool) (ts : List Turn) : p.sheet.after ts = (p.after ts).sheet := by
  induction ts generalizing p with
  | nil => rfl
  | cons t ts ih =>
      change Sheet.after (t.perform p.sheet).2.1 ts = (Pool.after (t.handle p).2.1 ts).sheet
      rw [t.perform_sheet]
      exact ih _

theorem eq_literal_of_denotation (h : denotation p = .fixed value) :
    p = literal value p.source := by
  rcases p with ⟨source, v | d | d⟩ <;> cases h
  rfl

theorem after_literal (value : Number) (source : String) (ts : List Turn) :
    (literal value source).after ts = literal value source := by
  induction ts with
  | nil => rfl
  | cons t ts ih =>
      change Pool.after (t.handle (literal value source)).2.1 ts = literal value source
      rw [(t.handle_literal value source).1]
      exact ih

theorem after_of_dice (h : p.dice? = some d) (ts : List Turn) :
    ∃ e, p.after ts = p.withDice e ∧ e.count = d.count ∧ e.faces = d.faces := by
  induction ts generalizing p d with
  | nil => exact ⟨d, (withDice_self h).symm, rfl, rfl⟩
  | cons t ts ih =>
      obtain ⟨e, s, he, hcount, hfaces⟩ := t.handle_of_dice h
      obtain ⟨e', he', hcount', hfaces'⟩ := ih (dice?_withDice h e)
      refine ⟨e', ?_, hcount'.trans hcount, hfaces'.trans hfaces⟩
      change Pool.after (t.handle p).2.1 ts = p.withDice e'
      rw [he, he', withDice_withDice]

theorem source_withDice (d : Dice) (p : Pool) : (p.withDice d).source = p.source := by
  rcases p with ⟨source, v | e | e⟩ <;> rfl

theorem perform_after (p : Pool) (ts : List Turn) (t : Turn) :
    let sheet := p.sheet.after ts
    let q := p.after ts
    sheet = q.sheet ∧
    t.perform sheet = ((t.handle q).1, (t.handle q).2.1.sheet, (t.handle q).2.2) ∧
    sheet.source = p.source ∧ sheet.meaning = denotation p ∧
    (∀ value, denotation p = .fixed value →
      sheet = ⟨p.source, .fixed value, [], {}, []⟩ ∧ q = p ∧
      q.result = value ∧ q.text = value.text ∧
      (t.perform sheet).2 = (sheet, t.state) ∧
      (t.op = .roll → (t.perform sheet).1 = .ok [value]) ∧
      (t.op ≠ .roll → (t.perform sheet).1 = .error .modifiersNotAllowed)) ∧
    (∀ count faces, denotation p = .dice count faces →
      ∃ values, (t.perform sheet).1 = .ok values) := by
  intro sheet q
  have hsheet : sheet = q.sheet := sheet_after p ts
  have hperform := t.perform_sheet q
  rw [hsheet]
  cases hp : denotation p with
  | fixed value =>
      obtain ⟨source, rfl⟩ : ∃ source, p = literal value source := ⟨_, eq_literal_of_denotation hp⟩
      have hq : q = literal value source := after_literal value source ts
      obtain ⟨hstate, hroll, hrefused⟩ := t.handle_literal value source
      rw [hq] at hperform ⊢
      rw [hperform, hstate]
      refine ⟨rfl, rfl, rfl, rfl, ?_, nofun⟩
      rintro _ ⟨⟩
      exact ⟨rfl, rfl, rfl, rfl, rfl, hroll, hrefused⟩
  | dice count faces =>
      obtain ⟨d, hd, rfl, rfl⟩ := exists_dice_of_denotation hp
      obtain ⟨e, hq, hcount, hfaces⟩ := after_of_dice hd ts
      obtain ⟨e', s, hhandle, -, -⟩ := t.handle_of_dice (hq ▸ dice?_withDice hd e)
      refine ⟨rfl, hperform, ?_, ?_, nofun, ?_⟩
      · exact (congrArg Pool.source hq).trans (source_withDice e p)
      · refine (congrArg denotation hq).trans ?_
        rw [denotation_of_dice (dice?_withDice hd e), hcount, hfaces]
      · rw [hperform, hhandle]
        exact fun _ _ _ => ⟨_, rfl⟩

theorem perform_after_replayed :
    let r := Roller.replay [6, 2]
    let ts : List Turn := [⟨r, 0, .explode 1 []⟩, ⟨r, 1, .roll⟩]
    let number := literal (.int 7) "7"
    let dice : Pool := ⟨"2d6", .dice { count := 2, faces := Faces.d6 }⟩
    let sheet := number.sheet.after ts
    sheet = ⟨"7", .fixed (.int 7), [], {}, []⟩ ∧
      Turn.perform ⟨r, 5, .roll⟩ sheet = (.ok [.int 7], sheet, 5) ∧
      Turn.perform ⟨r, 5, .reroll 3 []⟩ sheet = (.error .modifiersNotAllowed, sheet, 5) ∧
      ∃ values, (Turn.perform ⟨r, 5, .reroll 3 []⟩ (dice.sheet.after ts)).1 = .ok values := by
  intro r ts number dice sheet
  obtain ⟨-, -, -, -, hroll, -⟩ := perform_after number ts ⟨r, 5, .roll⟩
  obtain ⟨-, -, -, -, hrefused, -⟩ := perform_after number ts ⟨r, 5, .reroll 3 []⟩
  obtain ⟨-, -, -, -, -, hdice⟩ := perform_after dice ts ⟨r, 5, .reroll 3 []⟩
  obtain ⟨hsheet, -, -, -, hstate, hvalues, -⟩ := hroll (.int 7) rfl
  obtain ⟨-, -, -, -, hstate', -, herror⟩ := hrefused (.int 7) rfl
  exact ⟨hsheet, Prod.ext (hvalues rfl) hstate, Prod.ext (herror nofun) hstate',
    hdice 2 Faces.d6 rfl⟩

end Pool

end DiceTray
