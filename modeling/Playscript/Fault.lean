import Playscript.FileSystem
import Playscript.Position

/-!
# Script errors

What can be wrong with a script, and where. A fault is the cause and fixes the message; an error is
a fault with the place it was found at, once that is known.

* `locate_locate`: locating again forgets the first place.
* `message_locate`: locating changes no message.
-/

namespace Playscript

/-- Why a script could not be read. -/
inductive Reason
  | unstated
  | stated (text : Text)
  | file (e : FileError)
  | encoding (e : Encoding.Failure)
  deriving DecidableEq, Repr

def Reason.text : Reason → Text
  | unstated => []
  | stated text => text
  | file e => e.message
  | encoding e => e.message

inductive Fault
  /-- An error that says no more than its message. -/
  | general (message : Text)
  /-- An element breaks off at an offset, where something else was expected. Without a note of its
  own the message names what was expected. -/
  | malformed (offset : Int) (expected : Text) (note : Text)
  /-- A directive is refused for a stated reason. -/
  | directive (message : Text)
  | unknownDirective (name : Text)
  | missingArgument (position : Int) (role : Text)
  | invalidArity (message : Text)
  | unreadable (path : Text) (reason : Reason)
  deriving DecidableEq, Repr

def Fault.message : Fault → Text
  | general message => message
  | malformed _ expected note => if note = [] then "Expected ".toList ++ expected else note
  | directive message => message
  | unknownDirective name => "Unknown directive ".toList ++ name
  | missingArgument position role =>
    "Missing argument ".toList ++ role ++ " at position ".toList ++ Text.ofInt position
  | invalidArity message => message
  | unreadable path reason =>
    "Cannot read script ".toList ++ path
      ++ if reason.text = [] then [] else ": ".toList ++ reason.text

structure ScriptError where
  fault : Fault
  line : Option Int := none
  column : Option Int := none
  context : Option Text := none
  deriving DecidableEq, Repr

namespace ScriptError

def message (e : ScriptError) : Text := e.fault.message

/-- The error, found at an offset of a text. -/
def locate (e : ScriptError) (source : Text) (offset : Int) : ScriptError :=
  let p := source.positionOf offset
  { e with line := some p.line, column := some p.column, context := some (source.lineAt offset) }

/-- A line zero is no line, and a column counts only beside a line. -/
def placeText (e : ScriptError) : Text :=
  match e.line.filter (· ≠ 0), e.column.filter (· ≠ 0) with
  | some l, some c =>
    " (line ".toList ++ Text.ofInt l ++ ", column ".toList ++ Text.ofInt c ++ [')']
  | some l, none => " (line ".toList ++ Text.ofInt l ++ [')']
  | none, _ => []

/-- The context stands on a line of its own. -/
def contextText (e : ScriptError) : Text :=
  match e.context with
  | none => []
  | some context => if context = [] then [] else "\n  >> ".toList ++ context

def render (e : ScriptError) : Text := e.message ++ e.placeText ++ e.contextText

theorem message_locate (e : ScriptError) (source : Text) (offset : Int) :
    (e.locate source offset).message = e.message := rfl

theorem locate_locate (e : ScriptError) (s t : Text) (o p : Int) :
    (e.locate s o).locate t p = e.locate t p := rfl

end ScriptError

/-- Reading a script file: the encoding's name is checked for NUL first, then the file is opened,
then the encoding is looked up, and line breaks are unified last. -/
def FileSystem.readText (fs : FileSystem) (path : Path) (encoding : Text) : Except Reason Text :=
  if encoding.contains '\x00' then .error (.encoding .nulInName)
  else
    match fs.read path with
    | .error e => .error (.file e)
    | .ok bytes =>
      match fs.codecs.decodeAs encoding bytes with
      | .error e => .error (.encoding e)
      | .ok text => .ok text.unifyBreaks

end Playscript
