import DiceTray.NumberFormat
import DiceTray.Pool
import DiceTray.Snapshot
import DiceTray.Text.Replace

namespace DiceTray

structure Tray where
  pools : List Pool := []
  result : Option Number := none
  restored : Option String := none
  stuntPoints : Option Int64 := none
  notices : List Fault := []

namespace Tray

def substitute (pools : List Pool) (cs : List Char) : List Char :=
  pools.foldl (fun cs p => Text.replaceFirst p.source.toList p.chars cs) cs

def tooltip (expression : String) (t : Tray) : String :=
  match t.restored with
  | some text => text
  | none => expression ++ "\n" ++ String.ofList (substitute t.pools expression.toList)

def annotation? (t : Tray) : Option String :=
  t.stuntPoints.map fun n => " - " ++ (Number.int n).text ++ " Stunt Points"

def display? (options : DisplayOptions) (expression : String) (t : Tray) : Option String :=
  t.result.map fun n =>
    (if options.inline then Text.trimmed expression ++ " -> " else "")
      ++ options.numberFormat.text n.toReal ++ t.annotation?.getD ""

def snapshot (expression : String) (t : Tray) : Snapshot := .dice t.result (t.tooltip expression)

def restore (s : Snapshot) (t : Tray) : Tray :=
  match s with
  | .other => t
  | .dice result tooltip =>
      { t with
        result := result <|> t.result
        restored := if tooltip = "" then t.restored else some tooltip }

end Tray

end DiceTray
