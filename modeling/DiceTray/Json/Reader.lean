import DiceTray.Json.Value

namespace DiceTray.Json

def isGap (c : Char) : Bool := c = ' ' || c = '\n' || c = '\t' || c = '\r'

inductive Place where
  | word (rev : List Char)
  | string (rev : Text)
  deriving DecidableEq, Repr

def closeWord? : List Char → Option (List Piece)
  | [] => some []
  | rev => (Scalar.ofWord? rev.reverse).map fun x => [.scalar x]

def scan : Place → List Char → Option (List Piece)
  | .word rev, [] => closeWord? rev
  | .word rev, c :: cs =>
      if c = '"' then
        (closeWord? rev).bind fun ps => (scan (.string []) cs).map (ps ++ ·)
      else if isGap c then
        (closeWord? rev).bind fun ps => (scan (.word []) cs).map (ps ++ ·)
      else
        match Piece.ofChar? c with
        | some p =>
            (closeWord? rev).bind fun ps => (scan (.word []) cs).map fun rest => ps ++ p :: rest
        | none => scan (.word (c :: rev)) cs
  | .string _, [] => none
  | .string rev, '\\' :: 'u' :: a :: b :: c :: d :: cs =>
      match Text.hexUnit? a b c d with
      | some n => scan (.string (Text.pushUnit n rev)) cs
      | none => none
  | .string rev, '\\' :: c :: cs =>
      match Text.unescape? c with
      | some e => scan (.string (.char e :: rev)) cs
      | none => none
  | .string rev, '"' :: cs =>
      (scan (.word []) cs).map fun rest => .scalar (.string rev.reverse) :: rest
  | .string rev, c :: cs =>
      if c.toNat < 0x20 ∨ c = '\\' then none else scan (.string (.char c :: rev)) cs

inductive Frame where
  | array (rev : List Value)
  | object (rev : List (Text × Value)) (name : Text)

inductive Stage where
  | value (frames : List Frame)
  | item (frames : List Frame)
  | member (frames : List Frame)
  | nextName (rev : List (Text × Value)) (frames : List Frame)
  | colon (rev : List (Text × Value)) (name : Text) (frames : List Frame)
  | done (v : Value) (frames : List Frame)

namespace Stage

def begin? (frames : List Frame) : Piece → Option Stage
  | .scalar x => some (.done (.scalar x) frames)
  | .openArray => some (.item frames)
  | .openObject => some (.member frames)
  | _ => none

def step? : Stage → Piece → Option Stage
  | .value frames, p => begin? frames p
  | .item frames, .closeArray => some (.done (.array []) frames)
  | .item frames, p => begin? (.array [] :: frames) p
  | .member frames, .closeObject => some (.done (.object []) frames)
  | .member frames, .scalar (.string name) => some (.colon [] name frames)
  | .nextName rev frames, .scalar (.string name) => some (.colon rev name frames)
  | .colon rev name frames, .colon => some (.value (.object rev name :: frames))
  | .done v (.array rev :: frames), .comma => some (.value (.array (v :: rev) :: frames))
  | .done v (.array rev :: frames), .closeArray =>
      some (.done (.array (v :: rev).reverse) frames)
  | .done v (.object rev name :: frames), .comma => some (.nextName ((name, v) :: rev) frames)
  | .done v (.object rev name :: frames), .closeObject =>
      some (.done (.object ((name, v) :: rev).reverse) frames)
  | _, _ => none

def run? : Stage → List Piece → Option Stage
  | st, [] => some st
  | st, p :: ps => (st.step? p).bind fun st => run? st ps

end Stage

def ofPieces? (ps : List Piece) : Option Value :=
  match Stage.run? (.value []) ps with
  | some (.done v []) => some v
  | _ => none

def read? (s : String) : Option Value := (scan (.word []) s.toList).bind ofPieces?

end DiceTray.Json
