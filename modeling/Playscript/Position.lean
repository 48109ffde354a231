import Playscript.Text

/-!
# Positions

Where an offset lies in a text, as a person counts: lines and columns start at one, and a line
ends at its line feed. Offsets outside a text stand for its nearest end.

* `positionOf_of_le_zero`, `positionOf_of_length_le`: the two ends of the clamp.
* `position_newline`: the position just past a line feed opens the next line.
-/

namespace Playscript

structure Position where
  line : Nat
  column : Nat
  deriving DecidableEq, Repr

namespace Text

/-- The offset of `t` that is nearest to `offset`. -/
def clamp (t : Text) (offset : Int) : Nat := min offset.toNat t.length

/-- What stands after the last line feed. -/
def lastLine (t : Text) : Text := (t.reverse.takeWhile (· ≠ '\n')).reverse

/-- The position just past a text that starts at line one, column one. -/
def endPosition (before : Text) : Position :=
  ⟨before.count '\n' + 1, (lastLine before).length + 1⟩

def positionOf (t : Text) (offset : Int) : Position := endPosition (t.take (t.clamp offset))

/-- The line that holds an offset, without its line feed and the carriage returns before it. -/
def lineAt (t : Text) (offset : Int) : Text :=
  let o := t.clamp offset
  dropTrailing (· == '\r') (lastLine (t.take o) ++ (t.drop o).takeWhile (· ≠ '\n'))

@[simp] theorem clamp_natCast (t : Text) (n : Nat) : clamp t (n : Int) = min n t.length := by
  simp [clamp]

theorem clamp_le (t : Text) (offset : Int) : clamp t offset ≤ t.length := Nat.min_le_right ..

theorem positionOf_of_le_zero (t : Text) {offset : Int} (h : offset ≤ 0) :
    positionOf t offset = ⟨1, 1⟩ := by
  have : clamp t offset = 0 := by simp [clamp]; omega
  simp [positionOf, this, endPosition, lastLine]

theorem positionOf_of_length_le (t : Text) {offset : Int} (h : (t.length : Int) ≤ offset) :
    positionOf t offset = endPosition t := by
  have : clamp t offset = t.length := by simp [clamp]; omega
  simp [positionOf, this]

theorem position_newline (t : Text) :
    endPosition (t ++ ['\n']) = ⟨(endPosition t).line + 1, 1⟩ := by
  simp [endPosition, lastLine]

end Text

end Playscript
