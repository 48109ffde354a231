import Playscript.Bus
import Playscript.Fault

/-!
# Stages

A stage is a bus at work: it holds the bus, the objects that listeners share, what happened so far,
and a world that listeners may act on. Emitting an event calls the listeners that are on the event's
list when the emission starts, one after the other; a call that fails is logged and forgotten.
Listeners may emit events and ask the world for its next element, so emissions nest; the bus bounds
how deeply.

* `listenersOf_count`, `emitCount_count`: counting an emission changes nothing else.
* `journal_note`, `journal_logAll`: what is noted comes last in the journal.
-/

namespace Playscript

/-- Something that happened. An element is taken when it is sure that its step will give it, before
any effect that it has; a listener has stepped when it was given the answer. -/
inductive Happening
  | logged (r : Record)
  | subscribed (event listener : Text)
  | unsubscribed (event listener : Text)
  | emitted (event : Text) (payload : Payload)
  | called (listener : Text) (payload : Payload)
  | changed (object : Nat) (now : Contents)
  | taken (element : Element)
  | stepped (listener : Text) (element : Option Element)
  | decoded (path : Text)

structure Stage (α : Type) where
  bus : Bus := {}
  objects : Objects := {}
  /-- What happened, the latest first. -/
  past : List Happening := []
  world : α

namespace Stage

variable {α : Type}

/-- What happened, in order. -/
def journal (s : Stage α) : List Happening := s.past.reverse

def note (s : Stage α) (h : Happening) : Stage α := { s with past := h :: s.past }

def log (s : Stage α) (r : Record) : Stage α := s.note (.logged r)

def logAll (s : Stage α) (records : List Record) : Stage α := records.foldl log s

def onBus (s : Stage α) (f : Bus → Bus) : Stage α := { s with bus := f s.bus }

def onObjects (s : Stage α) (f : Objects → Objects) : Stage α := { s with objects := f s.objects }

def onWorld (s : Stage α) (f : α → α) : Stage α := { s with world := f s.world }

/-- Forget what happened so far. -/
def forget (s : Stage α) : Stage α := { s with past := [] }

def records (s : Stage α) : List Record :=
  s.journal.filterMap fun h =>
    match h with
    | .logged r => some r
    | _ => none

def introduce (s : Stage α) (name : Text) (l : Listener) : Stage α :=
  s.onBus (·.introduce name l)

def subscribe (s : Stage α) (event name : Text) : Stage α :=
  (s.onBus (·.subscribe event name)).note (.subscribed event name)

def unsubscribe (s : Stage α) (event name : Text) : Stage α :=
  (s.onBus (·.unsubscribe event name)).note (.unsubscribed event name)

/-- Change what an object holds, for all who hold it. -/
def change (s : Stage α) (object : Nat) (f : Option Contents → Contents) : Stage α :=
  let now := f (s.objects.find? object)
  (s.onObjects (·.put object now)).note (.changed object now)

/-- How a world emits an event. -/
abbrev Emitter (α : Type) := Stage α → Text → Payload → Stage α

/-- How a world steps to its next element. -/
abbrev Stepper (α : Type) := Stage α → Stage α × Except ScriptError (Option Element)

/-- A call of a listener, and whether it came to its end. -/
abbrev Caller (α : Type) := Stage α → Text → Payload → Stage α × Bool

def failureRecord (event : Text) : Record :=
  ⟨.error, .bus, "listener for ".toList ++ event ++ " failed".toList⟩

/-- Call one listener of an event. -/
def deliver (call : Caller α) (event : Text) (payload : Payload) (s : Stage α) (name : Text) :
    Stage α :=
  let answer := call s name payload
  if answer.2 then answer.1 else answer.1.log (failureRecord event)

def emitWith (call : Caller α) : Emitter α := fun s event payload =>
  let begun := (s.onBus (·.count event)).note (.emitted event payload)
  (s.bus.listenersOf event).foldl (deliver call event payload) begun

/-- The actions of a call in order, up to one that fails. The payload is the listener's own, down to
the objects in it. A listener that is first heard of here does nothing when it is called. -/
def perform (emit : Emitter α) (step : Stepper α) (name : Text) :
    List Action → Payload → Stage α → Stage α × Bool
  | [], _, s => (s, true)
  | .subscribe event other :: rest, own, s =>
    perform emit step name rest own ((s.introduce other (.always {})).subscribe event other)
  | .unsubscribe event other :: rest, own, s =>
    perform emit step name rest own ((s.introduce other (.always {})).unsubscribe event other)
  | .emit event payload :: rest, own, s => perform emit step name rest own (emit s event payload)
  | .overwrite payload :: rest, _, s => perform emit step name rest payload s
  | .change object f :: rest, own, s => perform emit step name rest own (s.change object f)
  | .next :: rest, own, s =>
    match step s with
    | (s, .ok element) => perform emit step name rest own (s.note (.stepped name element))
    | (s, .error _) => (s, false)

/-- Call a listener, with at most `depth` calls inside one another. -/
def call (stepWith : Emitter α → Stepper α) : Nat → Caller α
  | 0 => fun s _ _ => (s, false)
  | depth + 1 => fun s name payload =>
    let emit := emitWith (call stepWith depth)
    let reaction := s.bus.listener name s.bus.calls s.objects payload
    let begun := (s.onBus Bus.countCall).note (.called name payload)
    let done := perform emit (stepWith emit) name reaction.actions payload begun
    (done.1, done.2 && !reaction.fails)

/-- Emit an event, as deeply nested as the bus allows. -/
def emit (stepWith : Emitter α → Stepper α) : Emitter α := fun s event payload =>
  emitWith (call stepWith s.bus.nesting) s event payload

theorem journal_note (s : Stage α) (h : Happening) : (s.note h).journal = s.journal ++ [h] := by
  simp [note, journal]

theorem journal_logAll (s : Stage α) (records : List Record) :
    (s.logAll records).journal = s.journal ++ records.map .logged := by
  induction records generalizing s with
  | nil => simp [logAll]
  | cons r rest ih =>
    have h : s.logAll (r :: rest) = (s.log r).logAll rest := rfl
    rw [h, ih, log, journal_note]
    simp

/-! ## A bus of its own -/

/-- Where there is no engine, asking for an element fails. -/
def noEngine : Stepper Unit := fun s => (s, .error { fault := .general "no engine".toList })

def emitAlone : Emitter Unit := emit fun _ => noEngine

end Stage

theorem Bus.listenersOf_count (b : Bus) (event other : Text) :
    (b.count event).listenersOf other = b.listenersOf other := rfl

theorem Bus.emitCount_count (b : Bus) (event : Text) :
    (b.count event).emitCount event = b.emitCount event + 1 := by
  simp [count, emitCount, Table.find?_put_self]

end Playscript
