import Playscript.Proofs.Steps

/-!
# Sessions

A session asks one engine for one thing after the other, and keeps the answers. Only some requests
have to do with playing; the idle ones leave the script, its cursor and the state of the engine
alone.

* `serve_idle`: an idle request changes nothing that playing depends on.
-/

namespace Playscript

/-- Two players that would play the same from here on. -/
structure Player.Alike (p q : Player) : Prop where
  config : q.config = p.config
  files : q.files = p.files
  cursor : q.cursor = p.cursor
  phase : q.phase = p.phase
  stored : q.stored = p.stored

theorem Player.Alike.state {p q : Player} (h : p.Alike q) : q.state = p.state := by
  simp only [Player.state, h.phase, h.stored]

theorem Player.Alike.refl (p : Player) : p.Alike p := ⟨rfl, rfl, rfl, rfl, rfl⟩

theorem Player.Alike.of_eq {p q : Player} (h : q = p) : p.Alike q := h ▸ Player.Alike.refl p

namespace Engine

/-- What the step of an engine or of a cursor gives. -/
abbrev Outcome := Except ScriptError (Option Element)

/-- What one may ask of an engine. -/
inductive Request
  | next
  | peek
  | background
  | portrait (s : Sprite)
  | snapshot
  | addSprite (s : Sprite)
  | introduce (name : Text) (l : Listener)
  | subscribe (event name : Text)
  | unsubscribe (event name : Text)
  | emit (event : Text) (payload : Payload)
  /-- Read what an object holds. -/
  | look (object : Nat)
  | change (object : Nat) (f : Option Contents → Contents)
  | replaceScript (c : Cursor)
  /-- The current cursor is advanced behind the engine's back. -/
  | advance

inductive Answer
  | stepped (outcome : Outcome)
  | foretold (outcome : Outcome)
  | advanced (outcome : Outcome)
  | picture (answer : Except ImageError (Option Picture))
  | shown (snapshot : Snapshot)
  | held (contents : Option Contents)
  | done

def serve (e : Engine) : Request → Engine × Answer
  | .next => ((next e).1, .stepped (next e).2)
  | .peek => (peeked e, .foretold (peek e))
  | .background => ((backgroundImage e).1, .picture (backgroundImage e).2)
  | .portrait s => ((spriteImage e s).1, .picture (spriteImage e s).2)
  | .snapshot => (e, .shown (snapshot e))
  | .addSprite s => (addSprite e s, .done)
  | .introduce name l => (e.introduce name l, .done)
  | .subscribe event name => (e.subscribe event name, .done)
  | .unsubscribe event name => (e.unsubscribe event name, .done)
  | .emit event payload => (emit e event payload, .done)
  | .look object => (e, .held (e.objects.find? object))
  | .change object f => (e.change object f, .done)
  | .replaceScript c => (replaceScript e c, .done)
  | .advance => (moved e, .advanced e.world.cursor.advance.outcome)

def serveAll : Engine → List Request → Engine × List Answer
  | e, [] => (e, [])
  | e, r :: rest =>
    let served := serve e r
    let later := serveAll served.1 rest
    (later.1, served.2 :: later.2)

def Request.isNext : Request → Bool
  | .next => true
  | _ => false

/-- The answer to a step, if it is one. -/
def Answer.outcome? : Answer → Option Outcome
  | .stepped outcome => some outcome
  | _ => none

/-- What the steps among the answers gave. -/
def outcomes (answers : List Answer) : List Outcome := answers.filterMap Answer.outcome?

/-- A request that leaves the script and its cursor alone, and brings in no listener that would
not. -/
def Request.Idle : Request → Prop
  | .next | .replaceScript _ | .advance => False
  | .introduce _ l => l.Quiet
  | _ => True

/-! ## Idle requests -/

/-- What calls of the decoder keep, and records of them, is kept by noting what a load did. -/
theorem noteLoad_induct {P : Engine → Prop} {e : Engine} (he : P e)
    (hdecoded : ∀ f resolved, P f → P (f.note (.decoded resolved)))
    (hlog : ∀ f r, P f → P (f.log r)) (load : Load) (path : Text) : P (noteLoad e load path) := by
  have hasked : P (load.decoded.foldl (fun f resolved => f.note (.decoded resolved)) e) :=
    List.foldlRecOn load.decoded _ he fun f hf resolved _ => hdecoded f resolved hf
  unfold noteLoad
  simp only
  split
  · exact hlog _ _ hasked
  · exact hasked

/-- Noting what a load did leaves everything else alone. -/
theorem noteLoad_eq (e : Engine) (load : Load) (path : Text) :
    (noteLoad e load path).world = e.world ∧ (noteLoad e load path).bus = e.bus := by
  apply noteLoad_induct (P := fun f => f.world = e.world ∧ f.bus = e.bus)
  · exact ⟨rfl, rfl⟩
  · exact fun _ _ h => h
  · exact fun _ _ h => h

theorem backgroundImage_alike (e : Engine) :
    e.world.Alike (backgroundImage e).1.world ∧ (backgroundImage e).1.bus = e.bus := by
  unfold backgroundImage
  split
  · exact ⟨Player.Alike.refl _, rfl⟩
  · simp only
    rw [(noteLoad_eq _ _ _).1, (noteLoad_eq _ _ _).2]
    exact ⟨⟨rfl, rfl, rfl, rfl, rfl⟩, rfl⟩

theorem spriteImage_alike (e : Engine) (s : Sprite) :
    e.world.Alike (spriteImage e s).1.world ∧ (spriteImage e s).1.bus = e.bus := by
  unfold spriteImage
  simp only
  rw [(noteLoad_eq _ _ _).1, (noteLoad_eq _ _ _).2]
  exact ⟨⟨rfl, rfl, rfl, rfl, rfl⟩, rfl⟩

theorem peeked_eq (e : Engine) : (peeked e).world = e.world ∧ (peeked e).bus = e.bus := by
  unfold peeked
  split
  · exact ⟨Stage.world_logAll .., Stage.bus_logAll ..⟩
  · exact ⟨rfl, rfl⟩

/-- An idle request is not a step, and changes nothing that playing depends on as long as no
listener calls the engine. -/
theorem serve_idle {e : Engine} {r : Request} (hr : r.Idle) (hq : e.bus.Quiet) :
    e.world.Alike (serve e r).1.world ∧ (serve e r).1.bus.Quiet ∧
      (serve e r).2.outcome? = none ∧ r.isNext = false := by
  cases r with
  | next => exact hr.elim
  | replaceScript c => exact hr.elim
  | advance => exact hr.elim
  | peek =>
    obtain ⟨hworld, hbus⟩ := peeked_eq e
    exact ⟨.of_eq hworld, hbus ▸ hq, rfl, rfl⟩
  | background =>
    obtain ⟨halike, hbus⟩ := backgroundImage_alike e
    exact ⟨halike, hbus ▸ hq, rfl, rfl⟩
  | portrait s =>
    obtain ⟨halike, hbus⟩ := spriteImage_alike e s
    exact ⟨halike, hbus ▸ hq, rfl, rfl⟩
  | snapshot => exact ⟨Player.Alike.refl _, hq, rfl, rfl⟩
  | addSprite s => exact ⟨⟨rfl, rfl, rfl, rfl, rfl⟩, hq, rfl, rfl⟩
  | introduce name l => exact ⟨Player.Alike.refl _, hq.introduce name hr, rfl, rfl⟩
  | subscribe event name =>
    exact ⟨Player.Alike.refl _, hq.of_cast (Bus.cast_subscribe ..), rfl, rfl⟩
  | unsubscribe event name =>
    exact ⟨Player.Alike.refl _, hq.of_cast (Bus.cast_unsubscribe ..), rfl, rfl⟩
  | emit event payload =>
    obtain ⟨hquiet, hworld⟩ := Stage.world_emit nextWith hq event payload
    exact ⟨.of_eq hworld, hquiet, rfl, rfl⟩
  | look object => exact ⟨Player.Alike.refl _, hq, rfl, rfl⟩
  | change object f => exact ⟨Player.Alike.refl _, hq.of_cast rfl, rfl, rfl⟩

end Engine

end Playscript
