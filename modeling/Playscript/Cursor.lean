import Playscript.Element.Reading
import Playscript.Log

/-!
# Cursors

A cursor moves forward over the text of one script, an element at a time. Peeking parses and stays;
advancing parses and moves. An advance that fails latches its error, and every later peek or
advance gives that error until the cursor is moved back.

* `peek_of_latched`, `advance_of_latched`: a latched error stands in for any parse.
* `outcome_advance`: an advance gives what a peek foretells.
* `text_advance`: the text never changes.
* `scan_exhaust`: a run through all that is left stops at an error or where nothing is left.
-/

namespace Playscript

structure Cursor where
  text : Text
  origin : Option Text := none
  offset : Nat := 0
  latched : Option ScriptError := none
  deriving DecidableEq, Repr

/-- A seek to an offset that the cursor has not come past. -/
structure SeekRefused where
  wanted : Int
  offset : Nat
  deriving DecidableEq, Repr

def SeekRefused.message (s : SeekRefused) : Text :=
  "cannot seek forward to ".toList ++ Text.ofInt s.wanted ++ " (at ".toList ++ Text.ofNat s.offset
    ++ [')']

/-- Arguments that a directive has no use for are mentioned in the log. -/
def Parsed.ignoredRecords (p : Parsed) : List Record :=
  if p.ignored = [] then []
  else
    [⟨.debug, .directives,
      "loadbg: ignoring extra arguments [".toList
        ++ ", ".toList.intercalate (p.ignored.map Text.quoted) ++ [']']⟩]

def Parsed.advanceRecords (p : Parsed) : List Record :=
  p.ignoredRecords ++ [⟨.debug, .cursor, "parsed ".toList ++ p.element.debugForm⟩]

namespace Cursor

/-- Read a script file. Errors and the origin name the path as `shown`. -/
def ofFile (fs : FileSystem) (path : Path) (shown : Text) (encoding : Text) :
    Except ScriptError Cursor :=
  match fs.readText path encoding with
  | .ok text => .ok { text, origin := some shown }
  | .error reason => .error { fault := .unreadable shown reason }

def loadRecord (c : Cursor) : Record :=
  ⟨.debug, .cursor,
    "loaded script ".toList ++ c.origin.getD [] ++ " (".toList ++ Text.ofNat c.text.length
      ++ " chars)".toList⟩

def remaining (c : Cursor) : Text := c.text.drop c.offset

def failed (c : Cursor) : Bool := c.latched.isSome

def position (c : Cursor) : Position := c.text.positionOf c.offset

def scan (c : Cursor) : Except ScriptError (Option Parsed) :=
  match c.latched with
  | some e => .error e
  | none => c.text.scan c.offset

def peek (c : Cursor) : Except ScriptError (Option Element) :=
  (Option.map Parsed.element) <$> c.scan

def peekRecords (c : Cursor) : List Record :=
  match c.scan with
  | .ok (some p) => p.ignoredRecords
  | _ => []

/-- A step of a cursor: where it ends up, what it gives, and what the log says of it. -/
structure Advance where
  cursor : Cursor
  outcome : Except ScriptError (Option Element)
  records : List Record := []

def advance (c : Cursor) : Advance :=
  match c.scan with
  | .error e => ⟨{ c with latched := some e }, .error e, []⟩
  | .ok none => ⟨c, .ok none, []⟩
  | .ok (some p) => ⟨{ c with offset := p.stop }, .ok (some p.element), p.advanceRecords⟩

/-- Back to an offset at or before the present one; this clears a latched error. -/
def seek (c : Cursor) (offset : Int) : Except SeekRefused Cursor :=
  if 0 ≤ offset ∧ offset ≤ c.offset then
    .ok { c with offset := offset.toNat, latched := none }
  else .error ⟨offset, c.offset⟩

/-- Several steps of a cursor, up to an error or the end. -/
structure Run where
  cursor : Cursor
  elements : List Element := []
  error : Option ScriptError := none
  records : List Record := []

/-- At most `n` advances. -/
def advanceUpTo : Nat → Cursor → Run
  | 0, c => { cursor := c }
  | n + 1, c =>
    let step := c.advance
    match step.outcome with
    | .error e => { cursor := step.cursor, error := some e, records := step.records }
    | .ok none => { cursor := step.cursor, records := step.records }
    | .ok (some element) =>
      let run := advanceUpTo n step.cursor
      { run with
        elements := element :: run.elements
        records := step.records ++ run.records }

/-- All that is left. An element takes up a character at least, so the length of the text is
enough. -/
def exhaust (c : Cursor) : Run := advanceUpTo (c.text.length + 1) c

theorem peek_of_latched {c : Cursor} {e : ScriptError} (h : c.latched = some e) :
    c.peek = .error e := by
  have hs : c.scan = .error e := by simp [scan, h]
  rw [peek, hs]
  rfl

theorem advance_of_latched {c : Cursor} {e : ScriptError} (h : c.latched = some e) :
    c.advance.outcome = .error e ∧ c.advance.cursor = c := by
  have : c.scan = .error e := by simp [scan, h]
  simp only [advance, this, true_and]
  cases c
  simp_all

theorem outcome_advance (c : Cursor) : c.advance.outcome = c.peek := by
  unfold advance peek
  cases c.scan with
  | error e => rfl
  | ok p => cases p <;> rfl

theorem text_advance (c : Cursor) : c.advance.cursor.text = c.text := by
  unfold advance
  cases c.scan with
  | error e => rfl
  | ok p => cases p <;> rfl

/-- What a successful scan says about the advance that follows. -/
theorem advance_of_scan {c : Cursor} {p : Parsed} (h : c.scan = .ok (some p)) :
    c.advance = ⟨{ c with offset := p.stop }, .ok (some p.element), p.advanceRecords⟩ := by
  simp only [advance, h]

theorem lt_stop_of_scan {c : Cursor} {p : Parsed} (h : c.scan = .ok (some p)) :
    c.offset < p.stop ∧ p.stop ≤ c.text.length := by
  unfold scan at h
  split at h
  · cases h
  · exact Text.lt_stop_of_scan h

/-- More advances than there are characters left come to an error or to the end. -/
theorem scan_advanceUpTo {n : Nat} {c : Cursor} (h : c.text.length ≤ n + c.offset)
    (hr : (advanceUpTo (n + 1) c).error = none) :
    (advanceUpTo (n + 1) c).cursor.scan = .ok none := by
  induction n generalizing c with
  | zero =>
    cases hs : c.scan with
    | error e => simp [advanceUpTo, advance, hs] at hr
    | ok found =>
      cases found with
      | none => simp [advanceUpTo, advance, hs]
      | some p =>
        have := lt_stop_of_scan hs
        omega
  | succ n ih =>
    cases hs : c.scan with
    | error e => simp [advanceUpTo, advance, hs] at hr
    | ok found =>
      cases found with
      | none => simp [advanceUpTo, advance, hs]
      | some p =>
        have hp := lt_stop_of_scan hs
        have hstep := advance_of_scan hs
        rw [advanceUpTo] at hr ⊢
        simp only [hstep] at hr ⊢
        exact ih (by simp only; omega) hr

theorem scan_exhaust {c : Cursor} (h : c.exhaust.error = none) :
    c.exhaust.cursor.scan = .ok none :=
  scan_advanceUpTo (Nat.le_add_right ..) h

end Cursor

end Playscript
