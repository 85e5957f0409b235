import DiceTray.Decimal.Places
import DiceTray.Decimal.Reading

namespace DiceTray

open Decimal

structure NumberFormat where
  grouping : Option Char
  point : Char
  deriving DecidableEq, Repr

namespace NumberFormat

def english : NumberFormat := ⟨some ',', '.'⟩

def german : NumberFormat := ⟨some '.', ','⟩

def french : NumberFormat := ⟨some '\u202f', ','⟩

def plain : NumberFormat := ⟨none, '.'⟩

def germanLanguages : List String := ["de", "nl", "it", "es", "pt", "da", "id", "tr"]

def frenchLanguages : List String := ["fr", "ru", "pl", "cs", "sv", "fi", "nb", "uk"]

def ofLocale (tag : String) : NumberFormat :=
  let language := String.ofList
    (lowerAscii (tag.toList.takeWhile fun c => c != '-' && c != '_'))
  if germanLanguages.contains language then german
  else if frenchLanguages.contains language then french
  else english

def maxPlaces : Nat := 2

def group (separator : Option Char) : List Digit → List Char
  | [] => []
  | [d] => [d.char]
  | d :: ds =>
      match separator, ds.length % 3 with
      | some c, 0 => d.char :: c :: group separator ds
      | _, _ => d.char :: group separator ds

def dropTrailingZeros (ds : List Digit) : List Digit := (ds.reverse.dropWhile Digit.isZero).reverse

def chars (f : NumberFormat) (x : Float) : List Char :=
  if x.isNaN then ['N', 'a', 'N']
  else if x.isInf then Numeral.signed (x < 0.0) ['∞']
  else
    let (whole, fraction) := fixedPlaces maxPlaces x
    let fraction := dropTrailingZeros fraction
    let isZero := whole.all Digit.isZero && fraction.isEmpty
    Numeral.signed (x < 0.0 && !isZero)
      (group f.grouping whole
        ++ (if fraction.isEmpty then [] else f.point :: fraction.map Digit.char))

def text (f : NumberFormat) (x : Float) : String := String.ofList (f.chars x)

end NumberFormat

structure DisplayOptions where
  numberFormat : NumberFormat := .english
  inline : Bool := false
  deriving DecidableEq, Repr

end DiceTray
