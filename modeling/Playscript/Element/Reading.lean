import Playscript.Element
import Playscript.Fault

/-!
# Reading elements

How one element is read off the text that starts at its mark: `[` for a dialogue, `@` for a
directive, `#` for a comment. The mark itself is skipped unseen. A reading says how far the element
reaches; a defect says how far into the text the reading came.

* `splitBody_append`: cutting off a dialogue's body loses nothing but the line feed at the cut.
* `opensElement_splitBody`: what follows a body is empty or starts with a mark.
* `scan_eq_parseAt`: a scan parses at the first offset that is no blank.
* `lt_stop_of_scan`: an element takes up a character at least and stays within its text.
-/

namespace Playscript

/-- What a reader expected where it stopped. -/
inductive Missing
  | speakerEnd
  | directiveName
  | argumentsStart (name : Text)
  | argumentsEnd
  deriving DecidableEq, Repr

namespace Missing

def expected : Missing → Text
  | speakerEnd => "']'".toList
  | directiveName => "directive name".toList
  | argumentsStart _ => "'('".toList
  | argumentsEnd => "')'".toList

def note : Missing → Text
  | speakerEnd => "Expected ']' to close speaker name".toList
  | directiveName => "Expected directive name, found nothing".toList
  | argumentsStart name => "Expected '(' after directive name ".toList ++ name
  | argumentsEnd => "Expected matching parentheses )".toList

end Missing

/-! ## Directives -/

/-- The arguments of a directive are separated by commas; blank text holds none. -/
def splitArguments (raw : Text) : List Text :=
  if raw.all Text.isBlank then [] else (Text.splitWhere (· == ',') raw).map Text.trim

inductive DirectiveKind
  | jump
  | loadBackground
  deriving DecidableEq, Repr

/-- A directive and the arguments it has no use for. -/
structure Resolved where
  directive : Directive
  ignored : List Text := []
  deriving DecidableEq, Repr

namespace DirectiveKind

/-- The kinds in the order in which they are asked. -/
def all : List DirectiveKind := [jump, loadBackground]

def name : DirectiveKind → Text
  | jump => ['j', 'u', 'm', 'p']
  | loadBackground => ['l', 'o', 'a', 'd', 'b', 'g']

/-- A jump has a target, or two choices and a target. A background has a path first. -/
def resolve : DirectiveKind → List Text → Except Fault Resolved
  | jump, [path] => .ok ⟨.jump path none, []⟩
  | jump, [a, b, path] => .ok ⟨.jump path (some (a, b)), []⟩
  | jump, _ => .error (.invalidArity "jump directive take either 1 or 3 arguments".toList)
  | loadBackground, [] => .error (.missingArgument 0 "bg path".toList)
  | loadBackground, path :: rest => .ok ⟨.loadBackground path, rest⟩

/-- The answer of one kind, which has nothing to say about other names. -/
def answer? (kind : DirectiveKind) (name : Text) (args : List Text) :
    Option (Except Fault Resolved) :=
  if name = kind.name then some (kind.resolve args) else none

end DirectiveKind

/-- The first kind that answers to the name decides. -/
def Directive.resolve (name : Text) (args : List Text) : Except Fault Resolved :=
  match DirectiveKind.all.findSome? fun kind => kind.answer? name args with
  | some answer => answer
  | none => .error (.unknownDirective name)

/-! ## Readings -/

structure Reading where
  element : Element
  size : Nat
  ignored : List Text := []
  deriving DecidableEq, Repr

inductive Defect
  | missing (what : Missing) (reach : Nat)
  | refused (fault : Fault)
  deriving DecidableEq, Repr

/-- Does the line that starts here open a directive or a comment? -/
def endsBody : Text → Bool
  | '@' :: _ => true
  | '#' :: _ => true
  | _ => false

/-- The body of a dialogue, and the text from the mark that ends it. -/
def splitBody : Text → Text × Text
  | [] => ([], [])
  | c :: r =>
    if c = '\n' ∧ endsBody r = true then ([], r)
    else
      let rest := splitBody r
      (c :: rest.1, rest.2)

def restOfLine (t : Text) : Text := t.takeWhile fun c => !Text.isLineBreak c

def isNameLetter (c : Char) : Bool := c.isAlpha

/-- A speaker between brackets on one line, then words up to the next marked line. -/
def readDialogue (here : Text) : Except Defect Reading :=
  let after := here.drop 1
  let line := restOfLine after
  if line.contains ']' then
    let name := line.takeWhile (· ≠ ']')
    let cut := splitBody (after.drop (name.length + 1))
    let feed := if cut.2 = [] then 0 else 1
    .ok ⟨.dialogue (Text.trim name) cut.1.squeeze, name.length + 2 + cut.1.length + feed, []⟩
  else .error (.missing .speakerEnd ((here.take 1).length + line.length))

/-- A name of letters and arguments between parentheses, all on one line. -/
def readDirective (here : Text) : Except Defect Reading :=
  let after := here.drop 1
  let name := after.takeWhile isNameLetter
  if name = [] then .error (.missing .directiveName 1)
  else
    match after.drop name.length with
    | '(' :: inner =>
      let line := restOfLine inner
      if line.contains ')' then
        let raw := line.takeWhile (· ≠ ')')
        match Directive.resolve name (splitArguments raw) with
        | .ok r => .ok ⟨.directive r.directive, name.length + raw.length + 3, r.ignored⟩
        | .error fault => .error (.refused fault)
      else .error (.missing .argumentsEnd (name.length + line.length + 2))
    | _ => .error (.missing (.argumentsStart name) (name.length + 1))

/-- A comment takes its whole line, line feed included. -/
def readComment (here : Text) : Reading :=
  let line := here.takeWhile (· ≠ '\n')
  let feed := if here.drop line.length = [] then 0 else 1
  ⟨.comment, line.length + feed, []⟩

inductive Mark
  | dialogue
  | directive
  | comment
  deriving DecidableEq, Repr

namespace Mark

def char : Mark → Char
  | dialogue => '['
  | directive => '@'
  | comment => '#'

def ofChar? (c : Char) : Option Mark :=
  if c = '[' then some dialogue
  else if c = '@' then some directive
  else if c = '#' then some comment
  else none

/-- Does the text start with this mark? -/
def opens (mark : Mark) (t : Text) : Bool := t.head? = some mark.char

def read : Mark → Text → Except Defect Reading
  | dialogue, here => readDialogue here
  | directive, here => readDirective here
  | comment, here => .ok (readComment here)

theorem ofChar?_eq_some_iff (c : Char) (mark : Mark) : ofChar? c = some mark ↔ c = mark.char := by
  unfold ofChar?
  constructor
  · intro h
    split at h
    · cases h; assumption
    · split at h
      · cases h; assumption
      · split at h
        · cases h; assumption
        · cases h
  · rintro rfl
    cases mark <;> decide

end Mark

/-! ## Elements at offsets -/

/-- An element of a text, with the offset just past it. -/
structure Parsed where
  element : Element
  stop : Nat
  ignored : List Text := []
  deriving DecidableEq, Repr

/-- Offsets past the end read as the end, but a missing directive name is reported just past the
offset that was asked for. -/
def Defect.toError (source : Text) (offset : Nat) : Defect → ScriptError
  | missing what reach =>
    let stop :=
      match what with
      | .directiveName => offset + reach
      | _ => min offset source.length + reach
    ScriptError.locate { fault := .malformed stop what.expected what.note } source stop
  | refused fault => ScriptError.locate { fault } source offset

def Reading.startingAt (r : Reading) (start : Nat) : Parsed :=
  ⟨r.element, start + r.size, r.ignored⟩

def Mark.parseAt (mark : Mark) (source : Text) (offset : Nat) : Except ScriptError Parsed :=
  match mark.read (source.drop offset) with
  | .ok r => .ok (r.startingAt (min offset source.length))
  | .error d => .error (d.toError source offset)

/-- The element at or after an offset, blanks before it skipped. A text that goes on with anything
but a mark holds no further element. -/
def Text.scan (source : Text) (offset : Nat) : Except ScriptError (Option Parsed) :=
  let rest := source.drop offset
  let gap := (rest.takeWhile Text.isBlank).length
  let here := rest.drop gap
  match here.head?.bind Mark.ofChar? with
  | none => .ok none
  | some mark =>
    match mark.read here with
    | .ok r => .ok (some (r.startingAt (offset + gap)))
    | .error d => .error (d.toError source (offset + gap))

theorem opensElement_splitBody (t : Text) :
    (splitBody t).2 = [] ∨ endsBody (splitBody t).2 = true := by
  induction t with
  | nil => exact .inl rfl
  | cons c r ih =>
    by_cases h : c = '\n' ∧ endsBody r = true
    · rw [splitBody, if_pos h]
      exact .inr h.2
    · rw [splitBody, if_neg h]
      exact ih

theorem splitBody_append (t : Text) :
    t = (splitBody t).1 ++ (if (splitBody t).2 = [] then [] else '\n' :: (splitBody t).2) := by
  induction t with
  | nil => rfl
  | cons c r ih =>
    by_cases h : c = '\n' ∧ endsBody r = true
    · have hr : r ≠ [] := by
        rintro rfl
        exact absurd h.2 (by decide)
      simp [splitBody, h, hr]
    · simp only [splitBody, if_neg h, List.cons_append]
      rw [← ih]

/-! ## How far a reading reaches -/

theorem length_splitBody (t : Text) :
    (splitBody t).1.length + (if (splitBody t).2 = [] then 0 else 1) + (splitBody t).2.length
      = t.length := by
  have h := congrArg List.length (splitBody_append t)
  rw [List.length_append] at h
  split at h
  · rename_i he
    simp [he] at h ⊢
    omega
  · rename_i he
    simp [he] at h ⊢
    omega

private theorem length_takeWhile_lt {c : Char} {t : Text} (h : t.contains c = true) :
    (t.takeWhile (· ≠ c)).length < t.length := by
  induction t with
  | nil => simp at h
  | cons d r ih =>
    by_cases hd : d = c
    · simp [hd]
    · have hr : r.contains c = true := by
        have hm : c ∈ d :: r := by simpa using h
        rcases List.mem_cons.1 hm with e | hr
        · exact absurd e.symm hd
        · simpa using hr
      rw [List.takeWhile_cons_of_pos (by simpa using hd)]
      exact Nat.succ_lt_succ (ih hr)

private theorem length_restOfLine_le (t : Text) : (restOfLine t).length ≤ t.length :=
  (List.takeWhile_sublist _).length_le

theorem size_readDialogue {c : Char} {after : Text} {r : Reading}
    (h : readDialogue (c :: after) = .ok r) : 0 < r.size ∧ r.size ≤ (c :: after).length := by
  simp only [readDialogue, List.drop_succ_cons, List.drop_zero] at h
  split at h
  · rename_i hc
    cases h
    have hname := length_takeWhile_lt hc
    have hline := length_restOfLine_le after
    have hb := length_splitBody
      (after.drop (((restOfLine after).takeWhile (· ≠ ']')).length + 1))
    rw [List.length_drop] at hb
    simp only [List.length_cons]
    omega
  · cases h

theorem size_readDirective {c : Char} {after : Text} {r : Reading}
    (h : readDirective (c :: after) = .ok r) : 0 < r.size ∧ r.size ≤ (c :: after).length := by
  simp only [readDirective, List.drop_succ_cons, List.drop_zero] at h
  split at h
  · cases h
  · split at h
    · rename_i inner hi
      split at h
      · rename_i hc
        split at h
        · cases h
          have hraw := length_takeWhile_lt hc
          have hline := length_restOfLine_le inner
          have hlen := congrArg List.length hi
          simp only [List.length_drop, List.length_cons] at hlen
          simp only [List.length_cons]
          omega
        · cases h
      · cases h
    · cases h

theorem size_readComment (after : Text) :
    0 < (readComment ('#' :: after)).size ∧
      (readComment ('#' :: after)).size ≤ ('#' :: after).length := by
  have hw : (('#' :: after).takeWhile (· ≠ '\n')).length ≤ ('#' :: after).length :=
    (List.takeWhile_sublist _).length_le
  have hp : 0 < (('#' :: after).takeWhile (· ≠ '\n')).length := by
    rw [List.takeWhile_cons_of_pos (by decide)]
    exact Nat.succ_pos _
  simp only [readComment]
  split
  · omega
  · rename_i hd
    have := List.length_pos_iff.2 hd
    rw [List.length_drop] at this
    omega

theorem Mark.size_read {mark : Mark} {after : Text} {r : Reading}
    (h : mark.read (mark.char :: after) = .ok r) :
    0 < r.size ∧ r.size ≤ (mark.char :: after).length := by
  cases mark with
  | dialogue => exact size_readDialogue h
  | directive => exact size_readDirective h
  | comment =>
    cases h
    exact size_readComment after

/-! ## Scans -/

/-- What a scan finds is parsed at the first offset that is no blank. -/
theorem Text.scan_eq_parseAt {source : Text} {offset : Nat} {mark : Mark}
    (h : (source.drop (offset + ((source.drop offset).takeWhile Text.isBlank).length)).head?
      = some mark.char) :
    source.scan offset = some <$> mark.parseAt source
      (offset + ((source.drop offset).takeWhile Text.isBlank).length) := by
  have hm := (Mark.ofChar?_eq_some_iff mark.char mark).2 rfl
  have hlt : offset + ((source.drop offset).takeWhile Text.isBlank).length ≤ source.length := by
    rcases Nat.lt_or_ge source.length
      (offset + ((source.drop offset).takeWhile Text.isBlank).length) with hl | hl
    · rw [List.drop_eq_nil_of_le (Nat.le_of_lt hl)] at h
      cases h
    · exact hl
  simp only [Text.scan, List.drop_drop, h, Option.bind_some, hm, Mark.parseAt,
    Nat.min_eq_left hlt]
  cases mark.read
    (source.drop (offset + ((source.drop offset).takeWhile Text.isBlank).length)) <;> rfl

/-- An element that a scan finds ends past the offset of the scan and within the text. -/
theorem Text.lt_stop_of_scan {source : Text} {offset : Nat} {p : Parsed}
    (h : source.scan offset = .ok (some p)) : offset < p.stop ∧ p.stop ≤ source.length := by
  simp only [Text.scan, List.drop_drop] at h
  split at h
  · cases h
  · rename_i mark hm
    cases hd : source.drop
        (offset + ((source.drop offset).takeWhile Text.isBlank).length) with
    | nil =>
      rw [hd] at hm
      cases hm
    | cons c after =>
      have hlen := congrArg List.length hd
      simp only [List.length_drop, List.length_cons] at hlen
      rw [hd] at hm h
      have hc : c = mark.char := (Mark.ofChar?_eq_some_iff c mark).1 hm
      subst hc
      cases hr : mark.read (mark.char :: after) with
      | error d =>
        rw [hr] at h
        cases h
      | ok r =>
        rw [hr] at h
        cases h
        have hs := Mark.size_read hr
        simp only [List.length_cons] at hs
        simp only [Reading.startingAt]
        omega

end Playscript
