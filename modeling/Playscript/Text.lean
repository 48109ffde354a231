/-!
# Text

A text is the list of its code points, so every offset, line and column of this library counts
code points. This module holds the cutting and joining that scripts, paths and messages share:

* `splitWhere_ne_nil`: a split always has a piece;
* `intercalate_splitWhere`: joining the pieces of a split at one character gives the text back;
* `length_splitWhere`: there is one piece more than there are separators.
-/

namespace Playscript

abbrev Text := List Char

namespace Text

/-- The ranges of code points that count as blank: the controls that move the carriage, the
information separators, and every Unicode space. -/
def blankRanges : List (Nat × Nat) :=
  [(0x09, 0x0D), (0x1C, 0x20), (0x85, 0x85), (0xA0, 0xA0), (0x1680, 0x1680), (0x2000, 0x200A),
   (0x2028, 0x2029), (0x202F, 0x202F), (0x205F, 0x205F), (0x3000, 0x3000)]

/-- Does one of the ranges hold the code point? -/
def inRanges (ranges : List (Nat × Nat)) (c : Char) : Bool :=
  ranges.any fun r => r.1 ≤ c.toNat && c.toNat ≤ r.2

def isBlank (c : Char) : Bool := inRanges blankRanges c

/-- A line of a script ends before either of these. -/
def isLineBreak (c : Char) : Bool := c == '\n' || c == '\r'

def dropTrailing (p : Char → Bool) (t : Text) : Text := (t.reverse.dropWhile p).reverse

/-- The text without the blanks around it. -/
def trim (t : Text) : Text := dropTrailing isBlank (t.dropWhile isBlank)

/-- The pieces between the characters that satisfy `p`, empty ones included. -/
def splitWhere (p : Char → Bool) : Text → List Text
  | [] => [[]]
  | c :: r =>
    if p c then [] :: splitWhere p r
    else
      match splitWhere p r with
      | [] => [[c]]
      | piece :: pieces => (c :: piece) :: pieces

/-- The maximal runs without a blank, in order. -/
def words (t : Text) : List Text := (splitWhere isBlank t).filter (· ≠ [])

def unwords (ws : List Text) : Text := [' '].intercalate ws

/-- The words of a text with one space between neighbours. -/
def squeeze (t : Text) : Text := unwords (words t)

def ofNat (n : Nat) : Text := Nat.toDigits 10 n

def ofInt : Int → Text
  | .ofNat n => ofNat n
  | .negSucc n => '-' :: ofNat (n + 1)

/-- Carriage returns alone or before a line feed become one line feed each. -/
def unifyBreaks : Text → Text
  | [] => []
  | '\r' :: '\n' :: r => '\n' :: unifyBreaks r
  | c :: r => (if c = '\r' then '\n' else c) :: unifyBreaks r

theorem splitWhere_ne_nil (p : Char → Bool) (t : Text) : splitWhere p t ≠ [] := by
  cases t with
  | nil => simp [splitWhere]
  | cons c r =>
    rw [splitWhere]
    split
    · simp
    · split <;> simp

/-- The equation that recursion on a split uses: a character that is kept joins the first piece. -/
theorem splitWhere_cons_of_not {p : Char → Bool} {c : Char} (h : p c = false) (r : Text) :
    ∃ piece pieces, splitWhere p r = piece :: pieces ∧
      splitWhere p (c :: r) = (c :: piece) :: pieces := by
  cases e : splitWhere p r with
  | nil => exact absurd e (splitWhere_ne_nil p r)
  | cons piece pieces => exact ⟨piece, pieces, rfl, by simp [splitWhere, h, e]⟩

theorem length_splitWhere (p : Char → Bool) (t : Text) :
    (splitWhere p t).length = t.countP p + 1 := by
  induction t with
  | nil => rfl
  | cons c r ih =>
    cases h : p c with
    | true => simp [splitWhere, h, ih]
    | false =>
      obtain ⟨piece, pieces, e, e'⟩ := splitWhere_cons_of_not h r
      rw [e', List.countP_cons_of_neg (by simp [h]), ← ih, e]
      rfl

theorem intercalate_splitWhere (sep : Char) (t : Text) :
    [sep].intercalate (splitWhere (· == sep) t) = t := by
  induction t with
  | nil => rfl
  | cons c r ih =>
    by_cases h : c = sep
    · subst h
      cases e : splitWhere (· == c) r with
      | nil => exact absurd e (splitWhere_ne_nil _ r)
      | cons piece pieces =>
        rw [e] at ih
        simp [splitWhere, e, List.intercalate] at ih ⊢
        exact ih
    · have hs : (c == sep) = false := by simp [h]
      obtain ⟨piece, pieces, e, e'⟩ := splitWhere_cons_of_not (p := (· == sep)) hs r
      rw [e']
      rw [e] at ih
      cases pieces with
      | nil => simp [List.intercalate, List.intersperse] at ih ⊢; exact ih
      | cons q qs => simp [List.intercalate, List.intersperse] at ih ⊢; exact ih

end Text

end Playscript
