import Playscript.Text

/-!
# Log records

What the player tells its operator: a level, the part that speaks, and a message.
-/

namespace Playscript

inductive Level
  | debug
  | info
  | warning
  | error
  | critical
  deriving DecidableEq, Repr

def Level.rank : Level → Nat
  | debug => 10
  | info => 20
  | warning => 30
  | error => 40
  | critical => 50

def Level.name : Level → String
  | debug => "DEBUG"
  | info => "INFO"
  | warning => "WARNING"
  | error => "ERROR"
  | critical => "CRITICAL"

/-- The parts of the player that keep a log. -/
inductive Speaker
  | cursor
  | directives
  | engine
  | bus
  | images
  deriving DecidableEq, Repr

def Speaker.name : Speaker → String
  | cursor => "vnscript.script.cursor"
  | directives => "vnscript.script.directives"
  | engine => "vnscript.engine.engine"
  | bus => "vnscript.engine.event_bus"
  | images => "vnscript.engine.image_cache"

structure Record where
  level : Level
  speaker : Speaker
  message : Text
  deriving DecidableEq, Repr

def Record.render (r : Record) : Text :=
  r.level.name.toList ++ ' ' :: r.speaker.name.toList ++ ':' :: ' ' :: r.message

/-- The records that a threshold lets through, one to a line. -/
def Record.shown (threshold : Nat) (records : List Record) : List Text :=
  (records.filter fun r => threshold ≤ r.level.rank).map render

end Playscript
