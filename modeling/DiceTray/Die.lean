import DiceTray.Number

namespace DiceTray

inductive Mark where
  | dropped
  | rerolled
  | exploded
  | success
  | failure
  deriving DecidableEq, Repr

def Mark.symbol : Mark → Char
  | .dropped => 'd'
  | .rerolled => 'r'
  | .exploded => '!'
  | .success => '*'
  | .failure => '-'

structure Marks where
  toList : List Mark := []
  deriving DecidableEq, Repr

namespace Marks

def has (ms : Marks) (m : Mark) : Bool := ms.toList.contains m

def add (ms : Marks) (m : Mark) : Marks := if ms.has m then ms else ⟨ms.toList ++ [m]⟩

def isEmpty (ms : Marks) : Bool := ms.toList.isEmpty

def chars (ms : Marks) : List Char := ms.toList.map Mark.symbol

theorem mem_add {ms : Marks} {m n : Mark} : n ∈ (ms.add m).toList ↔ n ∈ ms.toList ∨ n = m := by
  unfold add has
  split
  case isTrue h =>
      have hm : m ∈ ms.toList := by simpa using h
      constructor
      · exact Or.inl
      · rintro (h | rfl)
        · exact h
        · exact hm
  case isFalse => simp

theorem nodup_add {ms : Marks} (h : ms.toList.Nodup) (m : Mark) : (ms.add m).toList.Nodup := by
  unfold add has
  split
  case isTrue => exact h
  case isFalse hm =>
      have hm : m ∉ ms.toList := by simpa using hm
      exact List.nodup_append.mpr ⟨h, by simp, fun a ha b hb => by
        simp only [List.mem_singleton] at hb
        subst hb
        exact fun he => hm (he ▸ ha)⟩

end Marks

structure Die where
  value : Int64
  counts : Bool := true
  marks : Marks := {}
  deriving DecidableEq, Repr

namespace Die

def fresh (value : Int64) : Die := { value }

def mark (d : Die) (m : Mark) : Die := { d with marks := d.marks.add m }

def drop (d : Die) : Die := { d.mark .dropped with counts := false }

def total (d : Die) : Int64 := if d.counts then d.value else 0

def valueChars (d : Die) : List Char := (Number.int d.value).chars

def chars (d : Die) : List Char := d.valueChars ++ d.marks.chars

end Die

end DiceTray
