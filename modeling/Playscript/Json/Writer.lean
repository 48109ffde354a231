import Playscript.Json

/-!
# Writing JSON

The form in which configurations are stored: an item to a line, two blanks of indentation a level,
a colon and a blank after each key, nothing inside empty brackets. Only quotes, backslashes and
control characters are escaped.

* `escapeChar_of_plain`: other characters stand for themselves.
-/

namespace Playscript.Json

def escapeChar (c : Char) : Text :=
  if c = '"' then ['\\', '"']
  else if c = '\\' then ['\\', '\\']
  else if c = '\n' then ['\\', 'n']
  else if c = '\r' then ['\\', 'r']
  else if c = '\t' then ['\\', 't']
  else if c = '\x08' then ['\\', 'b']
  else if c = '\x0c' then ['\\', 'f']
  else if c.toNat < 0x20 then '\\' :: 'u' :: Text.hexDigits 4 c.toNat
  else [c]

def writeString (t : Text) : Text := '"' :: t.flatMap escapeChar ++ ['"']

def newLine (depth : Nat) : Text := '\n' :: List.replicate (2 * depth) ' '

mutual

/-- The value as it stands at a depth of indentation. -/
def write (depth : Nat) : Json → Text
  | null => "null".toList
  | bool b => (if b then "true" else "false").toList
  | int n => Text.ofInt n
  | decimal literal => literal
  | str t => writeString t
  | arr [] => ['[', ']']
  | arr (v :: r) =>
    '[' :: newLine (depth + 1) ++ write (depth + 1) v ++ writeItems (depth + 1) r
      ++ newLine depth ++ [']']
  | obj [] => ['\x7b', '\x7d']
  | obj ((k, v) :: r) =>
    '\x7b' :: newLine (depth + 1) ++ writeString k ++ ':' :: ' ' :: write (depth + 1) v
      ++ writeFields (depth + 1) r ++ newLine depth ++ ['\x7d']

/-- Further items, each after a comma on a line of its own. -/
def writeItems (depth : Nat) : List Json → Text
  | [] => []
  | v :: r => ',' :: newLine depth ++ write depth v ++ writeItems depth r

def writeFields (depth : Nat) : List (Text × Json) → Text
  | [] => []
  | (k, v) :: r =>
    ',' :: newLine depth ++ writeString k ++ ':' :: ' ' :: write depth v ++ writeFields depth r

end

def render (v : Json) : Text := write 0 v

theorem escapeChar_of_plain {c : Char} (hq : c ≠ '"') (hb : c ≠ '\\') (hc : 0x20 ≤ c.toNat) :
    escapeChar c = [c] := by
  have hn : c ≠ '\n' := by rintro rfl; exact absurd hc (by decide)
  have hr : c ≠ '\r' := by rintro rfl; exact absurd hc (by decide)
  have ht : c ≠ '\t' := by rintro rfl; exact absurd hc (by decide)
  have h8 : c ≠ '\x08' := by rintro rfl; exact absurd hc (by decide)
  have hf : c ≠ '\x0c' := by rintro rfl; exact absurd hc (by decide)
  simp only [escapeChar, hq, hb, hn, hr, ht, h8, hf, if_false]
  rw [if_neg (by omega)]

end Playscript.Json
