import DiceTray.Json.Reader

namespace DiceTray.Json

namespace Value

def string? : Value → Option String
  | .scalar (.string t) => t.toString?
  | _ => none

def bool? : Value → Option Bool
  | .scalar (.bool b) => some b
  | _ => none

def number? : Value → Option Number
  | .scalar (.number n) => Json.number? n
  | _ => none

def double? : Value → Option Float
  | .scalar (.number n) => Json.double? n
  | _ => none

def list? {α : Type} (item? : Value → Option α) : Value → Option (List α)
  | .array vs => vs.mapM item?
  | _ => none

def char? (v : Value) : Option Char :=
  match v.string?.map String.toList with
  | some [c] => some c
  | _ => none

def nullable? {α : Type} (item? : Value → Option α) : Value → Option (Option α)
  | .scalar .null => some none
  | v => (item? v).map some

def word? : Value → Option String
  | .scalar (.string t) => t.toString?
  | .object [(name, .scalar .null)] => name.toString?
  | _ => none

end Value

abbrev Fields := List (String × Value)

def field? (member : Text × Value) : Option (String × Value) :=
  member.1.toString?.map fun name => (name, member.2)

namespace Fields

def values (fs : Fields) (name : String) : List Value :=
  (fs.filter fun (n, _) => n = name).map (·.2)

def get? (fs : Fields) (name : String) : Option Value := (values fs name).head?

def distinct (names : List String) (fs : Fields) : Bool :=
  names.all fun name => (values fs name).length ≤ 1

end Fields

def fields? (names : List String) : Value → Option Fields
  | .object ms => (ms.mapM field?).filter fun fs => Fields.distinct names fs
  | .array vs => if vs.length ≤ names.length then some (names.zip vs) else none
  | .scalar _ => none

def required? {α : Type} (item? : Value → Option α) (fs : Fields) (name : String) : Option α :=
  (fs.get? name).bind item?

def optional? {α : Type} (item? : Value → Option α) (default : α) (fs : Fields) (name : String) :
    Option α :=
  match fs.get? name with
  | some v => item? v
  | none => some default

def decode {α : Type} (item? : Value → Option α) (s : String) : Option α := (read? s).bind item?

end DiceTray.Json
