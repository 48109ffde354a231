import Playscript.Decimal
import Playscript.Json
import Playscript.Position

/-!
# Reading JSON

A reader that names the first thing that is wrong and where. It works on what is left of the text,
and a problem comes with the text from the place it is reported at. Of two fields with one key the
last one counts, in the place of the first. Whole numbers have a limit on their digits, and arrays
and objects one on their nesting, which is given with the text.

A string may escape half of a surrogate pair that stands alone. That is within the grammar, but half
a pair is no character, and there is no text for such a string: the reader gives up on it.
-/

namespace Playscript.Json

inductive Problem
  | value
  | propertyName
  | colon
  | comma
  | unterminated
  | controlCharacter
  | escape
  | unicodeEscape
  | extraData
  | byteOrderMark
  | tooManyDigits (count : Nat)
  | arrayTooDeep
  | objectTooDeep
  | loneHalf
  deriving DecidableEq, Repr

/-- The longest whole number, in digits. -/
def mostDigits : Nat := 4300

/-- How many arrays and objects there is usually room for inside one another. -/
def usualRoom : Nat := 990

namespace Problem

def tooDeepText (container : String) : Text :=
  "maximum recursion depth exceeded while decoding a JSON ".toList ++ container.toList
    ++ " from a unicode string".toList

def text : Problem → Text
  | value => "Expecting value".toList
  | propertyName => "Expecting property name enclosed in double quotes".toList
  | colon => "Expecting ':' delimiter".toList
  | comma => "Expecting ',' delimiter".toList
  | unterminated => "Unterminated string starting at".toList
  | controlCharacter => "Invalid control character at".toList
  | escape => "Invalid \\escape".toList
  | unicodeEscape => "Invalid \\uXXXX escape".toList
  | extraData => "Extra data".toList
  | byteOrderMark => "Unexpected UTF-8 BOM (decode using utf-8-sig)".toList
  | tooManyDigits count =>
    "Exceeds the limit (".toList ++ Text.ofNat mostDigits
      ++ " digits) for integer string conversion: value has ".toList ++ Text.ofNat count
      ++ " digits; use sys.set_int_max_str_digits() to increase the limit".toList
  | arrayTooDeep => tooDeepText "array"
  | objectTooDeep => tooDeepText "object"
  | loneHalf => "half of a surrogate pair".toList

/-- A text that breaks the grammar does so at some place. A limit is exceeded as a whole. -/
def isSyntax : Problem → Bool
  | tooManyDigits _ => false
  | arrayTooDeep => false
  | objectTooDeep => false
  | loneHalf => false
  | _ => true

def isTooDeep : Problem → Bool
  | arrayTooDeep => true
  | objectTooDeep => true
  | _ => false

/-- The text may be right, but is not read to its end. -/
def isBeyond (p : Problem) : Bool := p.isTooDeep || p == loneHalf

end Problem

/-- What was read and what is left, or a problem and the text from where it lies. -/
abbrev Step (α : Type) := Except (Problem × Text) (α × Text)

/-- Go on with what was read and what is left. -/
def Step.andThen {α β : Type} (s : Step α) (next : α → Text → Step β) : Step β :=
  match s with
  | .error e => .error e
  | .ok (a, rest) => next a rest

def Step.map {α β : Type} (f : α → β) (s : Step α) : Step β :=
  s.andThen fun a rest => .ok (f a, rest)

def isBlankChar (c : Char) : Bool := c == ' ' || c == '\t' || c == '\n' || c == '\r'

def skipBlanks (t : Text) : Text := t.dropWhile isBlankChar

/-! ## Strings -/

def hexValue? (c : Char) : Option Nat :=
  if c.isDigit then some (c.toNat - '0'.toNat)
  else if 'a' ≤ c ∧ c ≤ 'f' then some (c.toNat - 'a'.toNat + 10)
  else if 'A' ≤ c ∧ c ≤ 'F' then some (c.toNat - 'A'.toNat + 10)
  else none

/-- The number that the first four characters write, all of them hexadecimal digits. -/
def fourHex? (t : Text) : Option Nat :=
  match t with
  | a :: b :: c :: d :: _ => do
    let a ← hexValue? a
    let b ← hexValue? b
    let c ← hexValue? c
    let d ← hexValue? d
    return ((a * 16 + b) * 16 + c) * 16 + d
  | _ => none

def plainEscape? (c : Char) : Option Char :=
  if c = '"' ∨ c = '\\' ∨ c = '/' then some c
  else if c = 'b' then some '\x08'
  else if c = 'f' then some '\x0c'
  else if c = 'n' then some '\n'
  else if c = 'r' then some '\r'
  else if c = 't' then some '\t'
  else none

def isHighHalf (n : Nat) : Bool := 0xD800 ≤ n && n ≤ 0xDBFF

def isLowHalf (n : Nat) : Bool := 0xDC00 ≤ n && n ≤ 0xDFFF

/-- The second half of a pair: a second escape with more text after it. Its own digits have to be
right even where it turns out to be no second half. -/
def secondHalf? (t : Text) : Except (Problem × Text) (Option Nat) :=
  match t with
  | '\\' :: 'u' :: r =>
    if r.length ≤ 4 then .ok none
    else
      match fourHex? r with
      | none => .error (.unicodeEscape, 'u' :: r)
      | some n => .ok (if isLowHalf n then some n else none)
  | _ => .ok none

/-- The rest of a string whose opening quote starts `opening`. -/
def readString (opening : Text) (t : Text) : Step Text :=
  match t with
  | [] => .error (.unterminated, opening)
  | '"' :: r => .ok ([], r)
  | ['\\'] => .error (.unterminated, opening)
  | '\\' :: 'u' :: r =>
    if r.length ≤ 4 then .error (.unicodeEscape, 'u' :: r)
    else
      match fourHex? r with
      | none => .error (.unicodeEscape, 'u' :: r)
      | some n =>
        if isHighHalf n then
          match secondHalf? (r.drop 4) with
          | .error e => .error e
          | .ok none => .error (.loneHalf, 'u' :: r)
          | .ok (some m) =>
            Step.map (Char.ofNat (0x10000 + (n - 0xD800) * 0x400 + (m - 0xDC00)) :: ·)
              (readString opening (r.drop 10))
        else if isLowHalf n then .error (.loneHalf, 'u' :: r)
        else Step.map (Char.ofNat n :: ·) (readString opening (r.drop 4))
  | '\\' :: c :: r =>
    match plainEscape? c with
    | none => .error (.escape, '\\' :: c :: r)
    | some d => Step.map (d :: ·) (readString opening r)
  | c :: r =>
    if c.toNat < 0x20 then .error (.controlCharacter, c :: r)
    else Step.map (c :: ·) (readString opening r)
termination_by t.length
decreasing_by all_goals simp only [List.length_cons, List.length_drop]; omega

/-! ## Numbers -/

def digitsValue (t : Text) : Nat := t.foldl (fun n c => n * 10 + (c.toNat - '0'.toNat)) 0

/-- The digits of a whole number, which does not start with a zero unless it is one. -/
def wholeDigits (t : Text) : Text :=
  match t with
  | '0' :: _ => ['0']
  | _ => t.takeWhile Char.isDigit

def fraction (t : Text) : Text :=
  match t with
  | '.' :: r =>
    let digits := r.takeWhile Char.isDigit
    if digits = [] then [] else '.' :: digits
  | _ => []

/-- The letter and the sign of an exponent, and its digits, of which there is one at least. -/
def exponent (t : Text) : Text × Text :=
  match t with
  | [] => ([], [])
  | e :: r =>
    if e = 'e' ∨ e = 'E' then
      let sign := (r.take 1).filter fun c => c == '+' || c == '-'
      let digits := (r.drop sign.length).takeWhile Char.isDigit
      if digits = [] then ([], []) else (e :: sign, digits)
    else ([], [])

/-- A fraction starts with its point and an exponent with its letter. -/
def decimalOf (whole frac : Text) (expo : Text × Text) : Decimal :=
  let power : Int := digitsValue expo.2
  let places : Int := (frac.drop 1).length
  ⟨digitsValue (whole ++ frac.drop 1), (if expo.1.contains '-' then -power else power) - places⟩

def readNumber (t : Text) : Step Json :=
  let sign := (t.take 1).filter (· == '-')
  let unsigned := t.drop sign.length
  let whole := wholeDigits unsigned
  if whole = [] then .error (.value, t)
  else
    let afterWhole := unsigned.drop whole.length
    let frac := fraction afterWhole
    let expo := exponent (afterWhole.drop frac.length)
    let rest := afterWhole.drop (frac.length + expo.1.length + expo.2.length)
    if frac = [] ∧ expo.2 = [] then
      if mostDigits < whole.length then .error (.tooManyDigits whole.length, t)
      else .ok (int (if sign = [] then digitsValue whole else -digitsValue whole), rest)
    else .ok (decimal (sign ++ (decimalOf whole frac expo).normalForm), rest)

/-! ## Values -/

/-- The words that are values, the three that are no finite number among them. -/
def wordValues : List (Text × Json) :=
  [("null".toList, null), ("true".toList, bool true), ("false".toList, bool false),
   ("NaN".toList, decimal "NaN".toList), ("Infinity".toList, decimal "Infinity".toList),
   ("-Infinity".toList, decimal "-Infinity".toList)]

def readWord? (t : Text) : Option (Json × Text) :=
  (wordValues.find? fun w => w.1.isPrefixOf t).map fun w => (w.2, t.drop w.1.length)

mutual

/-- A value at the start of the text. The first argument bounds the calls, the second the arrays
and objects that may still be opened inside one another. -/
def readValue : Nat → Nat → Text → Step Json
  | 0, _, t => .error (.value, t)
  | n + 1, room, t =>
    match t with
    | '"' :: r => Step.map str (readString t r)
    | '[' :: r =>
      match room with
      | 0 => .error (.arrayTooDeep, t)
      | room + 1 =>
        match skipBlanks r with
        | ']' :: rest => .ok (arr [], rest)
        | r => Step.map arr (readItems n room r)
    | '\x7b' :: r =>
      match room with
      | 0 => .error (.objectTooDeep, t)
      | room + 1 =>
        match skipBlanks r with
        | '\x7d' :: rest => .ok (obj [], rest)
        | r => Step.map (fun fields => obj (Table.ofPairs fields)) (readFields n room r)
    | t =>
      match readWord? t with
      | some found => .ok found
      | none => readNumber t

/-- One or more items and the closing bracket. -/
def readItems : Nat → Nat → Text → Step (List Json)
  | 0, _, t => .error (.value, t)
  | n + 1, room, t =>
    (readValue n room t).andThen fun v r =>
      match skipBlanks r with
      | ']' :: rest => .ok ([v], rest)
      | ',' :: r => Step.map (v :: ·) (readItems n room (skipBlanks r))
      | r => .error (.comma, r)

/-- One or more fields and the closing brace. -/
def readFields : Nat → Nat → Text → Step (List (Text × Json))
  | 0, _, t => .error (.value, t)
  | n + 1, room, t =>
    match t with
    | '"' :: r =>
      (readString t r).andThen fun k r =>
        match skipBlanks r with
        | ':' :: r =>
          (readValue n room (skipBlanks r)).andThen fun v r =>
            match skipBlanks r with
            | '\x7d' :: rest => .ok ([(k, v)], rest)
            | ',' :: r => Step.map ((k, v) :: ·) (readFields n room (skipBlanks r))
            | r => .error (.comma, r)
        | r => .error (.colon, r)
    | t => .error (.propertyName, t)

end

structure ReadError where
  problem : Problem
  offset : Nat
  position : Position
  deriving DecidableEq, Repr

def ReadError.placeText (e : ReadError) : Text :=
  ": line ".toList ++ Text.ofNat e.position.line ++ " column ".toList
    ++ Text.ofNat e.position.column ++ " (char ".toList ++ Text.ofNat e.offset ++ [')']

def ReadError.message (e : ReadError) : Text :=
  e.problem.text ++ if e.problem.isSyntax then e.placeText else []

/-- A problem of a text, told by what is left from where it lies. -/
def ReadError.ofRest (t : Text) (problem : Problem) (rest : Text) : ReadError :=
  let offset := t.length - rest.length
  ⟨problem, offset, t.positionOf offset⟩

/-- The value that a whole text writes, with room for so many arrays and objects inside one another.
Every value takes at least one character and every call comes with a value or a closing bracket, so
twice the length is enough. -/
def read (room : Nat) (t : Text) : Except ReadError Json :=
  if t.head? = some '\ufeff' then .error (.ofRest t .byteOrderMark t)
  else
    match readValue (2 * t.length + 2) room (skipBlanks t) with
    | .error (problem, rest) => .error (.ofRest t problem rest)
    | .ok (v, rest) =>
      match skipBlanks rest with
      | [] => .ok v
      | rest => .error (.ofRest t .extraData rest)

end Playscript.Json
