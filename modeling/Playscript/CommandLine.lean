import Playscript.CommandLine.Arguments
import Playscript.Engine

/-!
# Command line

Two commands: `run` plays a script and prints each element with the position at which the playback
then stands; `check` parses scripts without playing them and says of each whether it is sound. What
is printed goes to one of two streams and the run ends with a status.

* `status_check_le`: checking ends with status zero or one.
-/

namespace Playscript

/-- What a command leaves behind: its status and the lines on both streams. -/
structure Outcome where
  status : Nat
  out : List Text := []
  err : List Text := []
  deriving DecidableEq, Repr

inductive Ending
  | usage (u : Usage)
  | done (o : Outcome)
  /-- A refusal of the file system, or a configuration nested too deep, that no command takes care
  of. -/
  | escaped (e : ConfigError)
  /-- The playback was cut off. -/
  | unfinished (o : Outcome)

namespace CommandLine

/-- One step of a run. -/
inductive Step
  | line (e : Engine) (text : Text)
  | finished (e : Engine)
  | failed (e : Engine) (error : ScriptError)

def positionText (p : Position) : Text := Text.ofNat p.line ++ ':' :: Text.ofNat p.column

def step (e : Engine) : Step :=
  match Engine.next e with
  | (e, .error error) => .failed e error
  | (e, .ok none) => .finished e
  | (e, .ok (some element)) =>
    .line e (positionText e.world.cursor.position ++ '\t' :: element.describe)

def errorLine (e : ScriptError) : Text := "error: ".toList ++ e.render

/-- Play at most `n` steps. The flag says whether the playback ended. -/
def play (threshold : Nat) : Nat → Engine → Outcome × Bool
  | 0, _ => ({ status := 0 }, false)
  | n + 1, e =>
    match step e.forget with
    | .finished e => ({ status := 0, err := Record.shown threshold e.records }, true)
    | .failed e error =>
      ({ status := 1, err := Record.shown threshold e.records ++ [errorLine error] }, true)
    | .line e text =>
      let rest := play threshold n e
      ({ status := rest.1.status
         out := text :: rest.1.out
         err := Record.shown threshold e.records ++ rest.1.err }, rest.2)

/-- The engine that is to play a script file, unless that is not there or cannot be read. -/
def openEngine (fs : FileSystem) (config : Config) (script : Text) : Except Ending Engine :=
  let path := Path.ofText script
  match fs.isPresent path with
  | .error e => .error (.escaped (.file e))
  | .ok false =>
    .error (.done { status := 2, err := ["Script not found: ".toList ++ path.toText] })
  | .ok true =>
    match Engine.ofFile config fs (fun _ path => .error (.missingFile path)) path path.toText with
    | .error error => .error (.done { status := 1, err := [errorLine error] })
    | .ok engine => .ok engine

def run (fs : FileSystem) (config : Config) (threshold steps : Nat) (script : Text) : Ending :=
  match openEngine fs config script with
  | .error ending => ending
  | .ok engine =>
    let begun := Record.shown threshold engine.records
    match play threshold steps engine with
    | (o, true) => .done { o with err := begun ++ o.err }
    | (o, false) => .unfinished { o with err := begun ++ o.err }

/-- Where an error lies, if that is known. -/
def errorPlace (e : ScriptError) : Text :=
  match e.line.filter (· ≠ 0) with
  | none => "?:?".toList
  | some l =>
    Text.ofInt l ++ ':' ::
      match e.column with
      | some c => Text.ofInt c
      | none => "None".toList

/-- Check one script: whether it is sound, what is said of it, and the records on the way. -/
def checkFile (fs : FileSystem) (encoding file : Text) : Bool × Text × List Record :=
  let faulty (e : ScriptError) := file ++ ':' :: errorPlace e ++ ": ".toList ++ e.message
  match Cursor.ofFile fs (Path.ofText file) file encoding with
  | .error e => (false, faulty e, [])
  | .ok c =>
    let run := c.exhaust
    let records := c.loadRecord :: run.records
    match run.error with
    | some e => (false, faulty e, records)
    | none =>
      (true,
        file ++ ": ok (".toList ++ Text.ofNat run.elements.length ++ " elements)".toList, records)

def check (fs : FileSystem) (config : Config) (threshold : Nat) (files : List Text) : Outcome :=
  let reports := files.map (checkFile fs config.encoding)
  { status := if reports.all (·.1) then 0 else 1
    out := reports.map (·.2.1)
    err := Record.shown threshold (reports.flatMap (·.2.2)) }

/-- The level that is asked for on the command line, unless that is empty, or the configured one. -/
def threshold (config : Config) (asked : Option Text) : Except ConfigError Nat :=
  let name := (asked.filter (· ≠ [])).getD config.logLevel
  match levelName (.str name) with
  | .error e => .error e
  | .ok level => .ok ((levelRank? level).getD 0)

def badConfig (e : ConfigError) : Ending :=
  if e.isCaught then .done { status := 2, err := ["Bad config: ".toList ++ e.message] }
  else .escaped e

/-- The configuration and the threshold that a request asks for. -/
def settle (fs : FileSystem) (room : Nat) (r : Request) : Except Ending (Config × Nat) :=
  match Config.load fs room (r.config.map Path.ofText) with
  | .error e => .error (badConfig e)
  | .ok config =>
    match threshold config r.logLevel with
    | .error e => .error (.done { status := 2, err := ["Bad log level: ".toList ++ e.message] })
    | .ok threshold => .ok (config, threshold)

/-- The whole program, playing at most `steps` steps. A configuration may be nested as deep as there
is room. -/
def program (fs : FileSystem) (room steps : Nat) (args : List Text) : Ending :=
  match Request.read args with
  | .error usage => .usage usage
  | .ok request =>
    match settle fs room request with
    | .error ending => ending
    | .ok (config, threshold) =>
      match request.command with
      | .run script => run fs config threshold steps script
      | .check files => .done (check fs config threshold files)

theorem status_check_le (fs : FileSystem) (config : Config) (threshold : Nat) (files : List Text) :
    (check fs config threshold files).status ≤ 1 := by
  simp only [check]
  split <;> omega

end CommandLine

def Usage.status : Usage → Nat
  | help => 0
  | misuse => 2

end Playscript
