import Playscript.Config
import Playscript.ImageCache
import Playscript.Cursor
import Playscript.Sprite
import Playscript.Stage

/-!
# Engine

An engine plays one script at a time. It steps the cursor of that script, runs the effect of each
directive before handing it back, and stops for good at the first error or at the end. Playing
happens on a stage, so listeners hear of every jump and every new background and may step the
engine themselves.

* `nextWith_of_errored`, `nextWith_of_exhausted`: a stopped engine stays as it is.
* `peek_of_errored`, `peek_of_exhausted`: so does what it foretells.
* `effectOf_loadBackground`: a background can always be set.
-/

namespace Playscript

/-- Where an engine is in its play. -/
inductive Phase
  | running
  | errored
  | exhausted
  deriving DecidableEq, Repr

/-- What a play has come to: its phase, and with an error the error itself. -/
inductive PlayState
  | running
  | errored (e : ScriptError)
  | exhausted
  deriving DecidableEq, Repr

def PlayState.name : PlayState → String
  | running => "running"
  | errored _ => "errored"
  | exhausted => "exhausted"

structure Player where
  config : Config := {}
  files : FileSystem := {}
  decoder : Decoder := fun _ path => .error (.missingFile path)
  cursor : Cursor
  /-- How often another script took the place of the current one. -/
  replaced : Nat := 0
  phase : Phase := .running
  /-- The error that the engine keeps for later calls. -/
  stored : Option ScriptError := none
  background : Option Text := none
  sprites : List Sprite := []
  backgrounds : ImageCache := {}
  portraits : ImageCache := {}
  /-- How often the decoder was asked; the two caches share it. -/
  decodes : Nat := 0

namespace Player

/-- What would be raised where no error is stored. No player that comes about gets there, since
it is sound. -/
def nothingStored : ScriptError := { fault := .general [] }

/-- What those who ask for an element go by. -/
def state (p : Player) : PlayState :=
  match p.phase with
  | .running => .running
  | .errored => .errored (p.stored.getD nothingStored)
  | .exhausted => .exhausted

/-- An error is stored just when the player has stopped with one. -/
def Sound (p : Player) : Prop := p.stored.isSome = true ↔ p.phase = .errored

/-- The player stops with an error. -/
def halted (p : Player) (error : ScriptError) : Player :=
  { p with phase := .errored, stored := some error }

/-- The player has come to the end. -/
def ended (p : Player) : Player := { p with phase := .exhausted }

@[simp] theorem state_halted (p : Player) (error : ScriptError) :
    (p.halted error).state = .errored error := rfl

@[simp] theorem cursor_halted (p : Player) (error : ScriptError) :
    (p.halted error).cursor = p.cursor := rfl

@[simp] theorem state_ended (p : Player) : p.ended.state = .exhausted := rfl

@[simp] theorem cursor_ended (p : Player) : p.ended.cursor = p.cursor := rfl

theorem sound_halted (p : Player) (error : ScriptError) : (p.halted error).Sound := by
  simp [Sound, halted]

theorem Sound.ended {p : Player} (h : p.Sound) (hs : p.state = .running) : p.ended.Sound := by
  unfold Sound at h ⊢
  cases hphase : p.phase <;> simp_all [state, Player.ended]

theorem Sound.of_eq {p q : Player} (h : p.Sound) (hphase : q.phase = p.phase)
    (hstored : q.stored = p.stored) : q.Sound := by
  rw [Sound, hphase, hstored]
  exact h

theorem stored_eq_some_iff {p : Player} (h : p.Sound) (error : ScriptError) :
    p.stored = some error ↔ p.state = .errored error := by
  unfold Sound at h
  cases hphase : p.phase <;> cases hstored : p.stored <;> simp_all [state]

end Player

abbrev Engine := Stage Player

namespace Engine

def record (message : Text) : Record := ⟨.debug, .engine, message⟩

/-- The origin of a script; an empty one is none. -/
def originOf (c : Cursor) : Option Text := c.origin.filter (· ≠ [])

/-- An engine that has done nothing yet. -/
def fresh (config : Config) (files : FileSystem) (decoder : Decoder) (cursor : Cursor) : Engine :=
  let cache : ImageCache := { base := config.assetsDir }
  { world := { config, files, decoder, cursor, backgrounds := cache, portraits := cache } }

def startRecord (c : Cursor) : Record :=
  record ("engine started on ".toList ++ (originOf c).getD "<string>".toList)

/-- An engine about to play a script. -/
def start (config : Config) (files : FileSystem) (decoder : Decoder) (cursor : Cursor) : Engine :=
  (fresh config files decoder cursor).log (startRecord cursor)

theorem sound_start (config : Config) (files : FileSystem) (decoder : Decoder) (cursor : Cursor) :
    (start config files decoder cursor).world.Sound :=
  iff_of_false Bool.false_ne_true Phase.noConfusion

/-- An engine about to play a script file. -/
def ofFile (config : Config) (files : FileSystem) (decoder : Decoder) (path : Path)
    (shown : Text) : Except ScriptError Engine :=
  match Cursor.ofFile files path shown config.encoding with
  | .error e => .error e
  | .ok cursor =>
    .ok (((fresh config files decoder cursor).log cursor.loadRecord).log (startRecord cursor))

/-! ## Scripts -/

/-- Where a path named by the current script leads. -/
def resolvePath (p : Player) (path : Text) : Path :=
  let named := Path.ofText path
  if named.isRooted || !p.config.relativeToScript then named
  else
    match originOf p.cursor with
    | none => named
    | some origin => (Path.ofText origin).parent.join named

/-- Read another script; nothing changes if it cannot be read. -/
def openScript (p : Player) (path : Text) : Except ScriptError Cursor :=
  let target := resolvePath p path
  Cursor.ofFile p.files target target.toText p.config.encoding

def loadPayload (c : Cursor) : Payload := [("path".toList, .fixed (.ofOption c.origin))]

def jumpPayload (path : Text) (choices : Option (Text × Text)) : Payload :=
  [("path".toList, .fixed (.str path)),
   ("choices".toList, .fixed
     (match choices with
      | none => .null
      | some (a, b) => .arr [.str a, .str b]))]

def backgroundPayload (path : Text) : Payload := [("path".toList, .fixed (.str path))]

/-- The new script takes the place of the current one, whatever that had left. -/
def replaceScriptWith (emit : Stage.Emitter Player) (e : Engine) (c : Cursor) : Engine :=
  emit (e.onWorld fun p => { p with cursor := c, replaced := p.replaced + 1 })
    "engine.load".toList (loadPayload c)

/-! ## Effects -/

/-- What a directive is going to do. All that can go wrong has gone right by then. -/
inductive Effect
  | jump (target : Cursor) (path : Text) (choices : Option (Text × Text))
  | background (path : Text)
  deriving DecidableEq, Repr

/-- A jump opens its target before anything else happens. -/
def effectOf (p : Player) : Directive → Except ScriptError Effect
  | .jump path choices =>
    match openScript p path with
    | .error error => .error error
    | .ok target => .ok (.jump target path choices)
  | .loadBackground path => .ok (.background path)

def applyWith (emit : Stage.Emitter Player) (e : Engine) : Effect → Engine
  | .jump target path choices =>
    let told := (e.log target.loadRecord).log
      ⟨.info, .directives, "jump -> ".toList ++ target.origin.getD "None".toList⟩
    emit (replaceScriptWith emit told target) "engine.jump".toList (jumpPayload path choices)
  | .background path =>
    let told := (e.onWorld fun p => { p with background := some path }).log
      ⟨.info, .directives, "background -> ".toList ++ path⟩
    emit told "engine.bg".toList (backgroundPayload path)

/-- Run a directive. Nothing has happened when this fails; `begun` is what happens first when it
does not. -/
def execWith (emit : Stage.Emitter Player) (begun : Engine → Engine) (e : Engine) (d : Directive) :
    Engine × Except ScriptError Unit :=
  match effectOf e.world d with
  | .error error => (e, .error error)
  | .ok effect => (applyWith emit (begun e) effect, .ok ())

/-! ## Steps -/

/-- The engine stops with an error. -/
def fail (e : Engine) (error : ScriptError) : Engine :=
  (e.onWorld (·.halted error)).log
    (record ("engine halted: ".toList ++ error.message))

/-- The cursor goes back to where a step found it. -/
def rewind (e : Engine) (offset : Nat) : Engine :=
  e.onWorld fun p => { p with cursor := { p.cursor with offset := offset, latched := none } }

/-- One step. A directive that cannot take effect leaves the cursor before it. -/
def nextWith (emit : Stage.Emitter Player) : Stage.Stepper Player := fun e =>
  match e.world.state with
  | .errored error => (e, .error error)
  | .exhausted => (e, .ok none)
  | .running =>
    let mark := e.world.cursor.offset
    let step := e.world.cursor.advance
    let moved := (e.onWorld fun p => { p with cursor := step.cursor }).logAll step.records
    match step.outcome with
    | .error error => (fail moved error, .error error)
    | .ok none => (moved.onWorld Player.ended, .ok none)
    | .ok (some (.directive d)) =>
      match execWith emit (·.note (.taken (.directive d))) moved d with
      | (after, .error error) => (fail (rewind after mark) error, .error error)
      | (after, .ok ()) => (after, .ok (some (.directive d)))
    | .ok (some element) => (moved.note (.taken element), .ok (some element))

def emit : Stage.Emitter Player := Stage.emit nextWith

def next : Stage.Stepper Player := nextWith emit

/-- Run a directive on its own. -/
def exec (e : Engine) (d : Directive) : Engine × Except ScriptError Unit := execWith emit id e d

def replaceScript (e : Engine) (c : Cursor) : Engine := replaceScriptWith emit e c

/-- The element that the next step would give, without any effect. -/
def peek (e : Engine) : Except ScriptError (Option Element) :=
  match e.world.state with
  | .errored error => .error error
  | .exhausted => .ok none
  | .running => e.world.cursor.peek

/-- A peek is logged as far as it parses. -/
def peeked (e : Engine) : Engine :=
  match e.world.state with
  | .running => e.logAll e.world.cursor.peekRecords
  | _ => e

/-! ## Pictures -/

/-- What a load does to the journal: the decoder call, and a record if it gave anything. -/
def noteLoad (e : Engine) (load : Load) (path : Text) : Engine :=
  let asked := load.decoded.foldl (fun e resolved => e.note (.decoded resolved)) e
  match load.answer, load.decoded, load.cache.images.find? path with
  | .ok _, [resolved], some image =>
    asked.log
      ⟨.debug, .images,
        "decoded ".toList ++ resolved ++ " (".toList ++ Text.ofInt image.width ++ ['x']
          ++ Text.ofInt image.height ++ [')']⟩
  | _, _, _ => asked

/-- The picture of the current background, if there is one. -/
def backgroundImage (e : Engine) : Engine × Except ImageError (Option Picture) :=
  match e.world.background with
  | none => (e, .ok none)
  | some path =>
    let load := e.world.backgrounds.load e.world.decoder e.world.decodes path
    let kept := e.onWorld fun p => { p with backgrounds := load.cache, decodes := load.calls }
    (noteLoad kept load path, load.answer)

def spriteImage (e : Engine) (s : Sprite) : Engine × Except ImageError (Option Picture) :=
  let load := e.world.portraits.load e.world.decoder e.world.decodes s.path
  let kept := e.onWorld fun p => { p with portraits := load.cache, decodes := load.calls }
  (noteLoad kept load s.path, load.answer)

def addSprite (e : Engine) (s : Sprite) : Engine :=
  e.onWorld fun p => { p with sprites := p.sprites ++ [s] }

/-! ## Runs -/

/-- Several steps: the engine after them, the elements they gave, and the error that ended them. -/
structure Run where
  engine : Engine
  elements : List Element := []
  error : Option ScriptError := none
  finished : Bool := false

/-- At most `n` steps, up to an error or the end. -/
def nextUpTo : Nat → Engine → Run
  | 0, e => { engine := e }
  | n + 1, e =>
    match next e with
    | (e, .error error) => { engine := e, error := some error, finished := true }
    | (e, .ok none) => { engine := e, finished := true }
    | (e, .ok (some element)) =>
      let run := nextUpTo n e
      { run with elements := element :: run.elements }

/-- What a look at the engine shows. -/
structure Snapshot where
  script : Option Text
  position : Position
  state : PlayState
  background : Option Text
  sprites : List Text
  deriving DecidableEq, Repr

def snapshot (e : Engine) : Snapshot :=
  { script := e.world.cursor.origin
    position := e.world.cursor.position
    state := e.world.state
    background := e.world.background
    sprites := e.world.sprites.map Sprite.path }

/-! ## Stopped engines -/

theorem nextWith_of_errored {emit : Stage.Emitter Player} {e : Engine} {error : ScriptError}
    (h : e.world.state = .errored error) : nextWith emit e = (e, .error error) := by
  simp [nextWith, h]

theorem nextWith_of_exhausted {emit : Stage.Emitter Player} {e : Engine}
    (h : e.world.state = .exhausted) : nextWith emit e = (e, .ok none) := by
  simp [nextWith, h]

theorem peek_of_errored {e : Engine} {error : ScriptError} (h : e.world.state = .errored error) :
    peek e = .error error := by
  simp [peek, h]

theorem peek_of_exhausted {e : Engine} (h : e.world.state = .exhausted) : peek e = .ok none := by
  simp [peek, h]

theorem effectOf_loadBackground (p : Player) (path : Text) :
    effectOf p (.loadBackground path) = .ok (.background path) := rfl

end Engine

end Playscript
