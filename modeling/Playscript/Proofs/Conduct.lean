import Playscript.Proofs.Turns

/-!
# Conduct

Listeners that decide as they go. A listener that a bus knows has its actions fixed before it is
called; here a listener asks the engine for one thing after the other, sees each answer, an error
among them, before it goes on, and may ask for anything that the engine's caller may ask for. Steps
and emissions are those of the engine, and the listeners that a bus knows are a special case.

* `Conduct`: what a listener does.
* `serveAllAs`: a session before listeners of any conduct.
* `Keeps.emitAs`: what each thing that listeners may ask for keeps, an emission keeps.
* `callAs_own`, `serveAllAs_own`: the listeners that a bus knows are among them.
-/

namespace Playscript

open Engine (Answer serveWith serve serveAll nextWith)

/-- What a listener does in one call. Each answer decides how it goes on. -/
inductive Conduct
  | returns
  | fails
  | asks (r : Engine.Request) (go : Answer → Conduct)

/-- The listeners of a play: how the listener of a name conducts itself when it is called. -/
abbrev Cast := Engine → Text → Payload → Conduct

/-- The listener asks only for what is allowed, whatever it is answered. -/
def Conduct.Only (P : Engine.Request → Prop) : Conduct → Prop
  | .asks r go => P r ∧ ∀ a, (go a).Only P
  | _ => True

def Cast.Only (P : Engine.Request → Prop) (cast : Cast) : Prop :=
  ∀ e name payload, (cast e name payload).Only P

theorem Conduct.only_true (c : Conduct) : c.Only fun _ => True := by
  induction c with
  | returns => trivial
  | fails => trivial
  | asks r go ih => exact ⟨trivial, ih⟩

theorem Conduct.Only.mono {P Q : Engine.Request → Prop} (h : ∀ r, P r → Q r) {c : Conduct}
    (hc : c.Only P) : c.Only Q := by
  induction c with
  | returns => trivial
  | fails => trivial
  | asks r go ih => exact ⟨h r hc.1, fun a => ih a (hc.2 a)⟩

theorem Cast.only_true (cast : Cast) : cast.Only fun _ => True :=
  fun e name payload => (cast e name payload).only_true

theorem Cast.Only.mono {P Q : Engine.Request → Prop} (h : ∀ r, P r → Q r) {cast : Cast}
    (hc : cast.Only P) : cast.Only Q := fun e name payload => (hc e name payload).mono h

namespace Engine

/-- An element that a listener is given is noted. -/
def noteGiven (name : Text) (e : Engine) : Answer → Engine
  | .stepped (.ok element) => e.note (.stepped name element)
  | _ => e

/-- The engine when a listener has just been called. -/
def called (e : Engine) (name : Text) (payload : Payload) : Engine :=
  (e.onBus Bus.countCall).note (.called name payload)

/-- Carry out the conduct of a listener. The flag says whether the call came to its end. -/
def carryOut (emit : Stage.Emitter Player) (name : Text) : Conduct → Engine → Engine × Bool
  | .returns, e => (e, true)
  | .fails, e => (e, false)
  | .asks r go, e =>
    let served := serveWith emit e r
    carryOut emit name (go served.2) (noteGiven name served.1 served.2)

/-- Call a listener, with at most `depth` calls inside one another. -/
def callAs (cast : Cast) : Nat → Stage.Caller Player
  | 0 => fun e _ _ => (e, false)
  | depth + 1 => fun e name payload =>
    carryOut (Stage.emitWith (callAs cast depth)) name (cast e name payload) (called e name payload)

/-- Emit an event, as deeply nested as the bus allows. -/
def emitAs (cast : Cast) : Stage.Emitter Player := fun e event payload =>
  Stage.emitWith (callAs cast e.bus.nesting) e event payload

/-- A session before listeners of any conduct. -/
def serveAllAs (cast : Cast) : Engine → List Request → Engine × List Answer
  | e, [] => (e, [])
  | e, r :: rest =>
    let served := serveWith (emitAs cast) e r
    let later := serveAllAs cast served.1 rest
    (later.1, served.2 :: later.2)

end Engine

/-! ## What listeners keep -/

/-- A relation that is kept by each part of a call, as long as only what is allowed is asked for. A
request may rely on this for the events that it announces. -/
structure Keeps (P : Engine.Request → Prop) (R : Engine → Engine → Prop) : Prop where
  refl (e : Engine) : R e e
  trans {e f g : Engine} : R e f → R f g → R e g
  log (e : Engine) (r : Record) : R e (e.log r)
  called (e : Engine) (name : Text) (payload : Payload) : R e (Engine.called e name payload)
  given (e : Engine) (name : Text) (a : Answer) : R e (Engine.noteGiven name e a)
  serve {emit : Stage.Emitter Player} {r : Engine.Request} : P r →
    (∀ e event payload, R (e.announced event payload) (emit e event payload)) →
    ∀ e, R e (serveWith emit e r).1

/-- What each emission keeps, a number of announcements keep. -/
theorem Engine.announce_keeps {R : Engine → Engine → Prop} (hrefl : ∀ e, R e e)
    (htrans : ∀ {e f g}, R e f → R f g → R e g) {emit : Stage.Emitter Player}
    (h : ∀ e event payload, R e (emit e event payload)) (e : Engine) (events : List Event) :
    R e (announce emit e events) := by
  induction events generalizing e with
  | nil => exact hrefl e
  | cons event rest ih => exact htrans (h e event.1 event.2) (ih _)

namespace Keeps

open Engine (callAs carryOut)

variable {P : Engine.Request → Prop} {R : Engine → Engine → Prop} {cast : Cast}

theorem emitWith (h : Keeps P R) {call : Stage.Caller Player}
    (hcall : ∀ e name payload, R e (call e name payload).1) (e : Engine) (event : Text)
    (payload : Payload) : R (e.announced event payload) (Stage.emitWith call e event payload) := by
  rw [Stage.emitWith_eq]
  generalize e.announced event payload = t
  induction e.bus.listenersOf event generalizing t with
  | nil => exact h.refl t
  | cons name names ih =>
    refine h.trans ?_ (ih _)
    rw [Stage.deliver]
    split
    · exact hcall t name payload
    · exact h.trans (hcall t name payload) (h.log ..)

theorem carryOut (h : Keeps P R) {emit : Stage.Emitter Player}
    (hemit : ∀ e event payload, R (e.announced event payload) (emit e event payload)) (name : Text)
    {conduct : Conduct} (hc : conduct.Only P) (e : Engine) :
    R e (carryOut emit name conduct e).1 := by
  induction conduct generalizing e with
  | returns => exact h.refl e
  | fails => exact h.refl e
  | asks r go ih =>
    have hserved := h.serve hc.1 hemit e
    exact h.trans (h.trans hserved (h.given ..)) (ih _ (hc.2 _) _)

/-- The induction is on how deeply calls may still be nested. -/
theorem callAs (h : Keeps P R) (hc : cast.Only P) (depth : Nat) (e : Engine) (name : Text)
    (payload : Payload) : R e (callAs cast depth e name payload).1 := by
  induction depth generalizing e name payload with
  | zero => exact h.refl e
  | succ depth ih =>
    exact h.trans (h.called e name payload)
      (h.carryOut (h.emitWith ih) name (hc e name payload) (Engine.called e name payload))

theorem emitAs (h : Keeps P R) (hc : cast.Only P) (e : Engine) (event : Text) (payload : Payload) :
    R (e.announced event payload) (Engine.emitAs cast e event payload) :=
  h.emitWith (h.callAs hc e.bus.nesting) e event payload

end Keeps

/-! ## Listeners that a bus knows -/

/-- The conduct of a listener that performs actions, whatever it is answered. An error on its way
ends it. -/
def Reaction.conductOf (fails : Bool) : List Action → Conduct
  | [] => if fails then .fails else .returns
  | .subscribe event other :: rest =>
    .asks (.introduce other (.always {})) fun _ =>
      .asks (.subscribe event other) fun _ => conductOf fails rest
  | .unsubscribe event other :: rest =>
    .asks (.introduce other (.always {})) fun _ =>
      .asks (.unsubscribe event other) fun _ => conductOf fails rest
  | .emit event payload :: rest => .asks (.emit event payload) fun _ => conductOf fails rest
  | .overwrite _ :: rest => conductOf fails rest
  | .change object f :: rest => .asks (.change object f) fun _ => conductOf fails rest
  | .next :: rest =>
    .asks .next fun
      | .stepped (.ok _) => conductOf fails rest
      | _ => .fails

namespace Engine

/-- The listeners that the bus of an engine knows. -/
def own : Cast := fun e name payload =>
  let reaction := e.bus.listener name e.bus.calls e.objects payload
  Reaction.conductOf reaction.fails reaction.actions

/-- A request that an action stands for. -/
def Request.Acts : Request → Prop
  | .next | .introduce _ _ | .subscribe _ _ | .unsubscribe _ _ | .emit _ _ | .change _ _ => True
  | _ => False

/-- The listeners that a bus knows ask only for what there are actions for. -/
theorem acts_own : own.Only Request.Acts := by
  intro e name payload
  show (Reaction.conductOf _ _).Only _
  generalize (e.bus.listener name e.bus.calls e.objects payload).fails = fails
  generalize (e.bus.listener name e.bus.calls e.objects payload).actions = actions
  induction actions with
  | nil => cases fails <;> trivial
  | cons action rest ih =>
    cases action with
    | subscribe event other => exact ⟨trivial, fun _ => ⟨trivial, fun _ => ih⟩⟩
    | unsubscribe event other => exact ⟨trivial, fun _ => ⟨trivial, fun _ => ih⟩⟩
    | emit event payload => exact ⟨trivial, fun _ => ih⟩
    | overwrite payload => exact ih
    | change object f => exact ⟨trivial, fun _ => ih⟩
    | next =>
      refine ⟨trivial, fun a => ?_⟩
      rcases a with (_ | _) | _ | _ | _ | _ | _ | _
      · trivial
      · exact ih
      all_goals trivial

theorem carryOut_conductOf (emit : Stage.Emitter Player) (name : Text) (fails : Bool)
    (actions : List Action) (own : Payload) (e : Engine) :
    carryOut emit name (Reaction.conductOf fails actions) e =
      ((Stage.perform emit (nextWith emit) name actions own e).1,
        (Stage.perform emit (nextWith emit) name actions own e).2 && !fails) := by
  induction actions generalizing own e with
  | nil => cases fails <;> rfl
  | cons action rest ih =>
    cases action with
    | subscribe event other => exact ih own _
    | unsubscribe event other => exact ih own _
    | emit event payload => exact ih own _
    | overwrite payload => exact ih payload e
    | change object f => exact ih own _
    | next =>
      simp only [Reaction.conductOf, carryOut, serveWith, Stage.perform]
      cases hstep : nextWith emit e with
      | mk after outcome =>
        cases outcome with
        | error error => rfl
        | ok element => exact ih own _

theorem callAs_own (depth : Nat) : callAs own depth = Stage.call nextWith depth := by
  induction depth with
  | zero => rfl
  | succ depth ih =>
    funext e name payload
    rw [callAs, ih]
    exact carryOut_conductOf _ name _ _ payload _

theorem emitAs_own : emitAs own = Engine.emit := by
  funext e event payload
  rw [emitAs, callAs_own]
  rfl

/-- A session before the listeners that the bus knows is a session. -/
theorem serveAllAs_own (e : Engine) (rs : List Request) : serveAllAs own e rs = serveAll e rs := by
  induction rs generalizing e with
  | nil => rfl
  | cons r rest ih => rw [serveAllAs, serveAll, emitAs_own, serveWith_emit, ih]

end Engine

end Playscript
