import Playscript.Engine

/-!
# Listeners at work

What listeners can do to a stage. A listener is a list of actions for each call, so what one action
does to a stage, whole calls and whole emissions do, however deeply they are nested. That is shown
once, for any relation between stages that every allowed action keeps.

* `Bus.Only`, `Bus.Quiet`: listeners that do only what is allowed, or leave the engine alone.
* `Closed.call`, `Closed.emit`: calls and emissions keep what allowed actions keep.
* `world_emit`: an emission that quiet listeners hear leaves the world as it is.
-/

namespace Playscript

/-- The listener does only what `P` allows, whatever it hears and whatever it has seen. -/
def Listener.Only (P : Action → Prop) (l : Listener) : Prop :=
  ∀ calls objects payload, ∀ a ∈ (l calls objects payload).actions, P a

/-- Every listener that the bus knows does only what `P` allows. -/
def Bus.Only (P : Action → Prop) (b : Bus) : Prop := ∀ name, (b.listener name).Only P

/-- The listener does not call the engine. It may fail, change its payload and the objects in it,
emit events, and put listeners on and off lists. -/
def Listener.Quiet (l : Listener) : Prop := l.Only (· ≠ .next)

def Bus.Quiet (b : Bus) : Prop := b.Only (· ≠ .next)

variable {P : Action → Prop}

theorem Listener.only_idle : (Listener.always {}).Only P := by
  intro calls objects payload a ha
  cases ha

theorem Bus.only_empty : ({} : Bus).Only P := fun _ => Listener.only_idle

theorem Bus.Only.of_cast {b c : Bus} (h : b.Only P) (hc : c.cast = b.cast) : c.Only P := by
  intro name
  rw [Bus.listener, hc]
  exact h name

theorem Bus.Only.introduce {b : Bus} (h : b.Only P) (name : Text) {l : Listener} (hl : l.Only P) :
    (b.introduce name l).Only P := by
  intro other
  unfold Bus.introduce
  split
  · exact h other
  · by_cases ho : other = name
    · subst ho
      simpa [Bus.listener, Table.find?_put_self] using hl
    · simpa [Bus.listener, Table.find?_put_of_ne _ ho] using h other

theorem Bus.cast_subscribe (b : Bus) (event name : Text) :
    (b.subscribe event name).cast = b.cast := by
  unfold Bus.subscribe
  split <;> rfl

theorem Bus.cast_unsubscribe (b : Bus) (event name : Text) :
    (b.unsubscribe event name).cast = b.cast := by
  unfold Bus.unsubscribe
  split <;> rfl

namespace Stage

variable {α : Type}

/-- The stage once an emission has begun, before the first listener is called. -/
def announced (s : Stage α) (event : Text) (payload : Payload) : Stage α :=
  (s.onBus (·.count event)).note (.emitted event payload)

theorem emitWith_eq (call : Caller α) (s : Stage α) (event : Text) (payload : Payload) :
    emitWith call s event payload =
      (s.bus.listenersOf event).foldl (deliver call event payload) (s.announced event payload) :=
  rfl

/-! ## What allowed actions keep -/

/-- From `s` to `t` the listeners stay within what is allowed, and `R` holds. -/
def Held (P : Action → Prop) (R : Stage α → Stage α → Prop) (s t : Stage α) : Prop :=
  s.bus.Only P → t.bus.Only P ∧ R s t

/-- A relation that each step of a call keeps, as long as the actions are allowed. -/
structure Closed (P : Action → Prop) (stepWith : Emitter α → Stepper α)
    (R : Stage α → Stage α → Prop) : Prop where
  refl (s : Stage α) : R s s
  trans {s t u : Stage α} : R s t → R t u → R s u
  log (s : Stage α) (r : Record) : R s (s.log r)
  called (s : Stage α) (name : Text) (payload : Payload) :
    R s ((s.onBus Bus.countCall).note (.called name payload))
  subscribe (s : Stage α) (event name : Text) : P (.subscribe event name) →
    R s ((s.introduce name (.always {})).subscribe event name)
  unsubscribe (s : Stage α) (event name : Text) : P (.unsubscribe event name) →
    R s ((s.introduce name (.always {})).unsubscribe event name)
  announced (s : Stage α) (event : Text) (payload : Payload) : P (.emit event payload) →
    R s (s.announced event payload)
  change (s : Stage α) (object : Nat) (f : Option Contents → Contents) : P (.change object f) →
    R s (s.change object f)
  stepped (s : Stage α) (name : Text) (element : Option Element) : P .next →
    R s (s.note (.stepped name element))
  /-- A step may rely on this for the events that it emits itself. -/
  step {emit : Emitter α} : P .next →
    (∀ s event payload, Held P R (s.announced event payload) (emit s event payload)) →
    ∀ s, Held P R s (stepWith emit s).1

namespace Closed

variable {stepWith : Emitter α → Stepper α} {R : Stage α → Stage α → Prop}

theorem held_refl (hc : Closed P stepWith R) (s : Stage α) : Held P R s s :=
  fun hs => ⟨hs, hc.refl s⟩

theorem held_trans (hc : Closed P stepWith R) {s t u : Stage α} (hst : Held P R s t)
    (htu : Held P R t u) : Held P R s u := by
  intro hs
  obtain ⟨ht, hRst⟩ := hst hs
  obtain ⟨hu, hRtu⟩ := htu ht
  exact ⟨hu, hc.trans hRst hRtu⟩

theorem perform (hc : Closed P stepWith R) {emit : Emitter α}
    (hemit : ∀ s event payload, Held P R (s.announced event payload) (emit s event payload))
    (name : Text) {actions : List Action} (hP : ∀ a ∈ actions, P a) (own : Payload)
    (s : Stage α) : Held P R s (perform emit (stepWith emit) name actions own s).1 := by
  induction actions generalizing own s with
  | nil => exact hc.held_refl s
  | cons a rest ih =>
    have hrest : ∀ a ∈ rest, P a := fun a ha => hP a (List.mem_cons_of_mem _ ha)
    have ha : P a := hP a (List.mem_cons_self ..)
    cases a with
    | subscribe event other =>
      refine hc.held_trans (fun hs => ⟨?_, hc.subscribe s event other ha⟩) (ih hrest own _)
      exact (hs.introduce other Listener.only_idle).of_cast (Bus.cast_subscribe ..)
    | unsubscribe event other =>
      refine hc.held_trans (fun hs => ⟨?_, hc.unsubscribe s event other ha⟩) (ih hrest own _)
      exact (hs.introduce other Listener.only_idle).of_cast (Bus.cast_unsubscribe ..)
    | emit event payload =>
      have hbegun : Held P R s (s.announced event payload) :=
        fun hs => ⟨hs.of_cast rfl, hc.announced s event payload ha⟩
      exact hc.held_trans (hc.held_trans hbegun (hemit s event payload)) (ih hrest own _)
    | overwrite payload => exact ih hrest payload s
    | change object f =>
      have hchange : Held P R s (s.change object f) :=
        fun hs => ⟨hs.of_cast rfl, hc.change s object f ha⟩
      exact hc.held_trans hchange (ih hrest own _)
    | next =>
      have hstep := hc.step ha hemit s
      rw [Stage.perform]
      cases hn : stepWith emit s with
      | mk t outcome =>
        rw [hn] at hstep
        cases outcome with
        | error e => exact hstep
        | ok element =>
          have hnote : Held P R t (t.note (.stepped name element)) :=
            fun ht => ⟨ht.of_cast rfl, hc.stepped t name element ha⟩
          exact hc.held_trans (hc.held_trans hstep hnote) (ih hrest own _)

theorem deliver (hc : Closed P stepWith R) {call : Caller α}
    (hcall : ∀ s name payload, Held P R s (call s name payload).1) (event : Text)
    (payload : Payload) (s : Stage α) (name : Text) :
    Held P R s (deliver call event payload s name) := by
  rw [Stage.deliver]
  split
  · exact hcall s name payload
  · have hlog : Held P R (call s name payload).1
        ((call s name payload).1.log (failureRecord event)) :=
      fun h => ⟨h.of_cast rfl, hc.log _ _⟩
    exact hc.held_trans (hcall s name payload) hlog

/-- An emission keeps what the calls in it keep, from its announcement on. -/
theorem emitWith (hc : Closed P stepWith R) {call : Caller α}
    (hcall : ∀ s name payload, Held P R s (call s name payload).1) (s : Stage α) (event : Text)
    (payload : Payload) : Held P R (s.announced event payload) (emitWith call s event payload) := by
  rw [emitWith_eq]
  generalize s.announced event payload = t
  induction s.bus.listenersOf event generalizing t with
  | nil => exact hc.held_refl t
  | cons name names ih => exact hc.held_trans (hc.deliver hcall event payload t name) (ih _)

/-- A call keeps what every action of its listener keeps. The induction is on how deeply calls may
still be nested. -/
theorem call (hc : Closed P stepWith R) (depth : Nat) (s : Stage α) (name : Text)
    (payload : Payload) : Held P R s (call stepWith depth s name payload).1 := by
  induction depth generalizing s name payload with
  | zero => exact hc.held_refl s
  | succ depth ih =>
    intro hs
    have hbegun : Held P R s ((s.onBus Bus.countCall).note (.called name payload)) :=
      fun hs => ⟨hs.of_cast rfl, hc.called s name payload⟩
    have hperform := hc.perform (hc.emitWith ih) name (hs name s.bus.calls s.objects payload)
      payload
      ((s.onBus Bus.countCall).note (.called name payload))
    exact hc.held_trans hbegun hperform hs

theorem emit (hc : Closed P stepWith R) (s : Stage α) (event : Text) (payload : Payload) :
    Held P R (s.announced event payload) (emit stepWith s event payload) :=
  hc.emitWith (hc.call s.bus.nesting) s event payload

end Closed

/-! ## Quiet listeners -/

/-- Without calls of the engine the world stays as it is, whatever a step would do to it. -/
theorem closed_world (stepWith : Emitter α → Stepper α) :
    Closed (· ≠ .next) stepWith fun s t => t.world = s.world where
  refl _ := rfl
  trans h h' := h'.trans h
  log _ _ := rfl
  called _ _ _ := rfl
  subscribe _ _ _ _ := rfl
  unsubscribe _ _ _ _ := rfl
  announced _ _ _ _ := rfl
  change _ _ _ _ := rfl
  stepped _ _ _ _ := rfl
  step h := absurd rfl h

/-- An emission that quiet listeners hear leaves the world as it is, and them quiet. -/
theorem world_emit (stepWith : Emitter α → Stepper α) {s : Stage α} (h : s.bus.Quiet)
    (event : Text) (payload : Payload) :
    (emit stepWith s event payload).bus.Quiet ∧
      (emit stepWith s event payload).world = s.world :=
  (closed_world stepWith).emit s event payload (h.of_cast rfl)

end Stage

end Playscript
