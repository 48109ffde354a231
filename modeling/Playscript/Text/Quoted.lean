import Playscript.Text.Printable

/-!
# Quoted text

The form in which messages show a text: between quotes, on one line, with an escape for the quote,
the backslash and everything that is not printable. Single quotes are used unless the text holds
one and no double quote.

* `quoted_of_plain`: a text of printable characters without quotes and backslashes stands between
  single quotes as it is.
-/

namespace Playscript.Text

def hexDigit (n : Nat) : Char := Nat.digitChar (n % 16)

/-- The last `width` hexadecimal digits of a number, zeros included. -/
def hexDigits : Nat → Nat → Text
  | 0, _ => []
  | width + 1, n => hexDigits width (n / 16) ++ [hexDigit n]

/-- The shortest of the three numeric escapes that holds the code point. -/
def numericEscape (c : Char) : Text :=
  if c.toNat < 0x100 then '\\' :: 'x' :: hexDigits 2 c.toNat
  else if c.toNat < 0x10000 then '\\' :: 'u' :: hexDigits 4 c.toNat
  else '\\' :: 'U' :: hexDigits 8 c.toNat

def quoteMark (t : Text) : Char := if t.contains '\'' && !t.contains '"' then '"' else '\''

def escapeIn (mark c : Char) : Text :=
  if c = mark ∨ c = '\\' then ['\\', c]
  else if c = '\n' then ['\\', 'n']
  else if c = '\r' then ['\\', 'r']
  else if c = '\t' then ['\\', 't']
  else if isPrintable c then [c]
  else numericEscape c

def quoted (t : Text) : Text :=
  let mark := quoteMark t
  mark :: t.flatMap (escapeIn mark) ++ [mark]

theorem escapeIn_of_plain {mark c : Char} (hm : c ≠ mark) (hb : c ≠ '\\')
    (hp : isPrintable c = true) : escapeIn mark c = [c] := by
  have hn : c ≠ '\n' := by rintro rfl; revert hp; decide
  have hr : c ≠ '\r' := by rintro rfl; revert hp; decide
  have ht : c ≠ '\t' := by rintro rfl; revert hp; decide
  simp [escapeIn, hm, hb, hn, hr, ht, hp]

theorem quoted_of_plain {t : Text}
    (h : ∀ c ∈ t, c ≠ '\'' ∧ c ≠ '\\' ∧ isPrintable c = true) :
    quoted t = '\'' :: t ++ ['\''] := by
  have hq : quoteMark t = '\'' := by
    have : t.contains '\'' = false := by
      simp only [List.contains_eq_mem, decide_eq_false_iff_not]
      exact fun hc => (h _ hc).1 rfl
    rw [quoteMark, this]
    rfl
  have hm : t.flatMap (escapeIn '\'') = t := by
    clear hq
    induction t with
    | nil => rfl
    | cons c r ih =>
      obtain ⟨h₁, h₂, h₃⟩ := h c (by simp)
      rw [List.flatMap_cons, escapeIn_of_plain h₁ h₂ h₃,
        ih fun d hd => h d (List.mem_cons_of_mem _ hd)]
      rfl
  simp [quoted, hq, hm]

end Playscript.Text
