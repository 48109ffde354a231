import Playscript.Proofs.Session

/-!
# Turns

A request is served in two parts. The engine first does all that it does itself, and has its answer
then; after that it announces events, and whatever else happens is the doing of those who hear of
them. What the engine does itself depends on its player and on nothing else.

* `Player.sort`: the sorts of steps.
* `nextWith_eq_announce`, `serveWith_eq_announce`: the two parts of a step and of any request.
* `own_next`: what a step does to a player, and what it gives.
* `still_own`: a request that neither steps nor tampers leaves the play alone.
* `state_own_of_stopped`: nothing that is asked of a stopped engine sets it going again.
-/

namespace Playscript

open Engine (Effect effectOf)

/-! ## Steps of a player -/

/-- What an effect does to a player. -/
def Player.apply (p : Player) : Effect → Player
  | .jump target _ _ => { p with cursor := target, replaced := p.replaced + 1 }
  | .background path => { p with background := some path }

/-- What a step does to a player, and what it gives. -/
def Player.step (p : Player) : Player × Engine.Outcome :=
  match p.state with
  | .errored error => (p, .error error)
  | .exhausted => (p, .ok none)
  | .running =>
    let ahead := { p with cursor := p.cursor.advance.cursor }
    match p.cursor.advance.outcome with
    | .error error => (ahead.halted error, .error error)
    | .ok none => (ahead.ended, .ok none)
    | .ok (some (.directive d)) =>
      match effectOf p d with
      | .error error => (p.halted error, .error error)
      | .ok effect => (ahead.apply effect, .ok (some (.directive d)))
    | .ok (some element) => (ahead, .ok (some element))

/-- The effect that the next step of a player has, if it has one. -/
def Player.effect? (p : Player) : Option Effect :=
  match p.state with
  | .running =>
    match p.cursor.advance.outcome with
    | .ok (some (.directive d)) => (effectOf p d).toOption
    | _ => none
  | _ => none

/-- What a stopped engine has to say to whoever asks for an element. -/
def PlayState.verdict? : PlayState → Option Engine.Outcome
  | .running => none
  | .errored error => some (.error error)
  | .exhausted => some (.ok none)

/-- The sorts of steps: a stopped player stays as it is, and a running one stops at an error or at
the end, takes a plain element, or finds a directive, which may not be possible. -/
inductive Player.Sort (p : Player) : Prop
  | stopped {o : Engine.Outcome} (h : p.state.verdict? = some o)
  | failing {error : ScriptError} (hs : p.state = .running)
      (h : p.cursor.advance.outcome = .error error)
  | ending (hs : p.state = .running) (h : p.cursor.advance.outcome = .ok none)
  | plain {element : Element} (hs : p.state = .running)
      (h : p.cursor.advance.outcome = .ok (some element)) (hm : element.mark ≠ .directive)
  | impossible {d : Directive} {error : ScriptError} (hs : p.state = .running)
      (h : p.cursor.advance.outcome = .ok (some (.directive d)))
      (he : effectOf p d = .error error)
  | possible {d : Directive} {effect : Effect} (hs : p.state = .running)
      (h : p.cursor.advance.outcome = .ok (some (.directive d))) (he : effectOf p d = .ok effect)

theorem Player.sort (p : Player) : p.Sort := by
  cases hs : p.state with
  | errored error => exact .stopped (o := .error error) (by rw [hs]; rfl)
  | exhausted => exact .stopped (o := .ok none) (by rw [hs]; rfl)
  | running =>
    cases h : p.cursor.advance.outcome with
    | error error => exact .failing hs h
    | ok found =>
      cases found with
      | none => exact .ending hs h
      | some element =>
        by_cases hm : element.mark = .directive
        · obtain ⟨d, rfl⟩ := Element.eq_directive_of_mark hm
          cases he : effectOf p d with
          | error error => exact .impossible hs h he
          | ok effect => exact .possible hs h he
        · exact .plain hs h hm

theorem PlayState.verdict?_eq_some {s : PlayState} {o : Engine.Outcome} (h : s.verdict? = some o) :
    (∃ error, s = .errored error ∧ o = .error error) ∨ s = .exhausted ∧ o = .ok none := by
  cases s with
  | running => cases h
  | errored error => exact .inl ⟨error, rfl, (Option.some.inj h).symm⟩
  | exhausted => exact .inr ⟨rfl, (Option.some.inj h).symm⟩

theorem PlayState.verdict?_eq_none {s : PlayState} : s.verdict? = none ↔ s = .running := by
  cases s <;> simp [verdict?]

/-! ### The sorts one by one -/

namespace Player

variable {p : Player}

theorem step_of_verdict {o : Engine.Outcome} (h : p.state.verdict? = some o) : p.step = (p, o) := by
  rcases PlayState.verdict?_eq_some h with ⟨error, hs, rfl⟩ | ⟨hs, rfl⟩ <;> simp only [step, hs]

theorem effect?_of_verdict {o : Engine.Outcome} (h : p.state.verdict? = some o) :
    p.effect? = none := by
  rcases PlayState.verdict?_eq_some h with ⟨error, hs, rfl⟩ | ⟨hs, rfl⟩ <;> simp only [effect?, hs]

theorem step_of_failing (hs : p.state = .running) {error : ScriptError}
    (h : p.cursor.advance.outcome = .error error) :
    p.step =
      (({ p with cursor := p.cursor.advance.cursor } : Player).halted error, .error error) := by
  simp only [step, hs, h]

theorem step_of_ending (hs : p.state = .running) (h : p.cursor.advance.outcome = .ok none) :
    p.step = (({ p with cursor := p.cursor.advance.cursor } : Player).ended, .ok none) := by
  simp only [step, hs, h]

theorem step_of_plain (hs : p.state = .running) {element : Element}
    (h : p.cursor.advance.outcome = .ok (some element)) (hm : element.mark ≠ .directive) :
    p.step = ({ p with cursor := p.cursor.advance.cursor }, .ok (some element)) := by
  cases element with
  | directive d => exact absurd rfl hm
  | dialogue name body => simp only [step, hs, h]
  | comment => simp only [step, hs, h]

theorem effect?_of_plain (hs : p.state = .running) {element : Element}
    (h : p.cursor.advance.outcome = .ok (some element)) (hm : element.mark ≠ .directive) :
    p.effect? = none := by
  cases element with
  | directive d => exact absurd rfl hm
  | dialogue name body => simp only [effect?, hs, h]
  | comment => simp only [effect?, hs, h]

theorem step_of_impossible (hs : p.state = .running) {d : Directive} {error : ScriptError}
    (h : p.cursor.advance.outcome = .ok (some (.directive d))) (he : effectOf p d = .error error) :
    p.step = (p.halted error, .error error) := by
  simp only [step, hs, h, he]

theorem step_of_possible (hs : p.state = .running) {d : Directive} {effect : Effect}
    (h : p.cursor.advance.outcome = .ok (some (.directive d))) (he : effectOf p d = .ok effect) :
    p.step =
      (({ p with cursor := p.cursor.advance.cursor } : Player).apply effect,
        .ok (some (.directive d))) := by
  simp only [step, hs, h, he]

end Player

namespace Engine

/-! ## The two parts of a request -/

abbrev Event := Text × Payload

def Effect.events : Effect → List Event
  | .jump target path choices =>
    [("engine.load".toList, loadPayload target), ("engine.jump".toList, jumpPayload path choices)]
  | .background path => [("engine.bg".toList, backgroundPayload path)]

/-- Announce events, one after the other. -/
def announce (emit : Stage.Emitter Player) (e : Engine) (events : List Event) : Engine :=
  events.foldl (fun e event => emit e event.1 event.2) e

/-- An emitter that leaves no trace. With it a request is what the engine does itself. -/
def unheard : Stage.Emitter Player := fun e _ _ => e

/-- Serve a request, whoever hears of the events that it announces. -/
def serveWith (emit : Stage.Emitter Player) (e : Engine) : Request → Engine × Answer
  | .next => ((nextWith emit e).1, .stepped (nextWith emit e).2)
  | .emit event payload => (emit e event payload, .done)
  | .replaceScript c => (replaceScriptWith emit e c, .done)
  | r => serve e r

/-- The events that serving a request announces. -/
def eventsOf (e : Engine) : Request → List Event
  | .next => (e.world.effect?.map Effect.events).getD []
  | .emit event payload => [(event, payload)]
  | .replaceScript c => [("engine.load".toList, loadPayload c)]
  | _ => []

theorem serveWith_emit : serveWith Engine.emit = serve := by
  funext e r
  cases r <;> rfl

/-- An effect is had before any event is announced. -/
theorem applyWith_eq_announce (emit : Stage.Emitter Player) (e : Engine) (effect : Effect) :
    applyWith emit e effect = announce emit (applyWith unheard e effect) effect.events := by
  cases effect <;> rfl

theorem world_applyWith_unheard (e : Engine) (effect : Effect) :
    (applyWith unheard e effect).world = e.world.apply effect := by
  cases effect <;> rfl

theorem nextWith_of_verdict {emit : Stage.Emitter Player} {e : Engine} {o : Outcome}
    (h : e.world.state.verdict? = some o) : nextWith emit e = (e, o) := by
  rcases PlayState.verdict?_eq_some h with ⟨error, hs, rfl⟩ | ⟨hs, rfl⟩
  · exact nextWith_of_errored hs
  · exact nextWith_of_exhausted hs

theorem peek_of_verdict {e : Engine} {o : Outcome} (h : e.world.state.verdict? = some o) :
    peek e = o := by
  rcases PlayState.verdict?_eq_some h with ⟨error, hs, rfl⟩ | ⟨hs, rfl⟩
  · exact peek_of_errored hs
  · exact peek_of_exhausted hs

/-- A step does all that it does itself before it announces the first event. -/
theorem nextWith_eq_announce (emit : Stage.Emitter Player) (e : Engine) :
    nextWith emit e =
      (announce emit (nextWith unheard e).1 (eventsOf e .next), (nextWith unheard e).2) := by
  cases e.world.sort with
  | stopped h =>
    simp only [nextWith_of_verdict h, eventsOf, Player.effect?_of_verdict h]
    rfl
  | failing hs h =>
    simp only [nextWith_of_error hs h, eventsOf, Player.effect?, hs, h]
    rfl
  | ending hs h =>
    simp only [nextWith_of_end hs h, eventsOf, Player.effect?, hs, h]
    rfl
  | plain hs h hm =>
    simp only [nextWith_of_plain hs h hm, eventsOf, Player.effect?_of_plain hs h hm]
    rfl
  | impossible hs h he =>
    simp only [nextWith_of_unreadable hs h he, eventsOf, Player.effect?, hs, h, he]
    rfl
  | possible hs h he =>
    simp only [nextWith_of_effect hs h he, eventsOf, Player.effect?, hs, h, he]
    rw [applyWith_eq_announce]
    rfl

/-- A request has its effects and its answer before the first of its events is announced. -/
theorem serveWith_eq_announce (emit : Stage.Emitter Player) (e : Engine) (r : Request) :
    serveWith emit e r =
      (announce emit (serveWith unheard e r).1 (eventsOf e r), (serveWith unheard e r).2) := by
  cases r with
  | next =>
    simp only [serveWith]
    rw [nextWith_eq_announce emit e]
  | _ => rfl

/-! ## What the engine does itself -/

/-- What a step does to a player, and what it gives. -/
theorem own_next (e : Engine) :
    (nextWith unheard e).1.world = e.world.step.1 ∧ (nextWith unheard e).2 = e.world.step.2 := by
  cases e.world.sort with
  | stopped h =>
    rw [nextWith_of_verdict h, Player.step_of_verdict h]
    exact ⟨rfl, rfl⟩
  | failing hs h => simp [nextWith_of_error hs h, Player.step_of_failing hs h, fail]
  | ending hs h => simp [nextWith_of_end hs h, Player.step_of_ending hs h]
  | plain hs h hm => simp [nextWith_of_plain hs h hm, Player.step_of_plain hs h hm]
  | impossible hs h he =>
    have hworld := world_rewind_moved h
    simp [nextWith_of_unreadable hs h he, Player.step_of_impossible hs h he, fail, hworld]
  | possible hs h he =>
    simp [nextWith_of_effect hs h he, Player.step_of_possible hs h he, world_applyWith_unheard]

/-- A request that goes behind the engine's back: it brings in a script or moves the cursor. -/
def Request.Tampers : Request → Prop
  | .replaceScript _ | .advance => True
  | _ => False

end Engine

/-- Two players at the same place of the same play, with the same background. -/
structure Player.Still (p q : Player) : Prop extends p.Alike q where
  background : q.background = p.background

theorem Player.Still.refl (p : Player) : p.Still p := ⟨.refl p, rfl⟩

theorem Player.Still.of_eq {p q : Player} (h : q = p) : p.Still q := h ▸ Player.Still.refl p

namespace Engine

theorem still_backgroundImage (e : Engine) : e.world.Still (backgroundImage e).1.world := by
  refine ⟨(backgroundImage_alike e).1, ?_⟩
  unfold backgroundImage
  split
  · rfl
  · simp only
    rw [(noteLoad_eq _ _ _).1]
    rfl

theorem still_spriteImage (e : Engine) (s : Sprite) :
    e.world.Still (spriteImage e s).1.world := by
  refine ⟨(spriteImage_alike e s).1, ?_⟩
  unfold spriteImage
  simp only
  rw [(noteLoad_eq _ _ _).1]
  rfl

/-- A request that neither steps nor tampers leaves the play alone. -/
theorem still_own {e : Engine} {r : Request} (hn : r ≠ .next) (ht : ¬r.Tampers) :
    e.world.Still (serveWith unheard e r).1.world := by
  cases r with
  | next => exact absurd rfl hn
  | replaceScript c => exact absurd trivial ht
  | advance => exact absurd trivial ht
  | peek => exact .of_eq (peeked_eq e).1
  | background => exact still_backgroundImage e
  | portrait s => exact still_spriteImage e s
  | addSprite s => exact ⟨⟨rfl, rfl, rfl, rfl, rfl⟩, rfl⟩
  | snapshot => exact .refl _
  | introduce name l => exact .refl _
  | subscribe event name => exact .refl _
  | unsubscribe event name => exact .refl _
  | emit event payload => exact .refl _
  | look object => exact .refl _
  | change object f => exact .refl _

/-- Only a step changes the phase of an engine, or the error that it keeps. -/
theorem phase_own {e : Engine} {r : Request} (hn : r ≠ .next) :
    (serveWith unheard e r).1.world.phase = e.world.phase ∧
      (serveWith unheard e r).1.world.stored = e.world.stored := by
  cases r with
  | next => exact absurd rfl hn
  | replaceScript c => exact ⟨rfl, rfl⟩
  | advance => simp [serveWith, serve]
  | _ => exact ⟨(still_own hn id).phase, (still_own hn id).stored⟩

theorem state_own {e : Engine} {r : Request} (hn : r ≠ .next) :
    (serveWith unheard e r).1.world.state = e.world.state := by
  simp only [Player.state, phase_own hn]

/-- Nothing that is asked of a stopped engine sets it going again or stops it otherwise. -/
theorem state_own_of_stopped {e : Engine} (h : e.world.state ≠ .running) (r : Request) :
    (serveWith unheard e r).1.world.state = e.world.state := by
  by_cases hn : r = .next
  · subst hn
    cases hv : e.world.state.verdict? with
    | none => exact absurd (PlayState.verdict?_eq_none.1 hv) h
    | some o => simp only [serveWith, nextWith_of_verdict hv]
  · exact state_own hn

end Engine

end Playscript
