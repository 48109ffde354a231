import Playscript.Json
import Playscript.Log
import Playscript.Element

/-!
# Event bus

Who listens to which event, how often each event was emitted, and who the listeners are. A listener
is known by its name; how it reacts is fixed when it is first introduced. Calling the listeners is
the business of a stage.

What goes round with an event are its fields, of which every listener has a copy of its own. The
copy is flat: an object among the fields is the same object for all who hold it. A listener that
fails does so with an ordinary error; what interrupts a program from outside is not modelled.

* `listenersOf_subscribe_of_ne`, `listenersOf_unsubscribe_of_ne`: an operation on one event leaves
  the others alone.
* `nodup_subscribe`, `nodup_unsubscribe`: no listener is on a list twice.
* `subscribe_of_mem`, `unsubscribe_of_not_mem`: what is so already changes no list.
-/

namespace Playscript

/-- A value among the fields of an event: one that never changes, or an object, which changes for
all who hold it when one of them changes it. -/
inductive Item
  | fixed (value : Json)
  | object (number : Nat)

/-- The fields of an event. -/
abbrev Payload := List (Text × Item)

/-- What an object holds. -/
inductive Contents
  | items (items : List Item)
  | fields (fields : Payload)

/-- The objects that there are, with what they hold. -/
abbrev Objects := Table Nat Contents

/-- What a listener does when it is called. -/
inductive Action
  | subscribe (event listener : Text)
  | unsubscribe (event listener : Text)
  | emit (event : Text) (payload : Payload)
  /-- Change the payload, of which each listener has its own copy. -/
  | overwrite (payload : Payload)
  /-- Change what an object holds, or make it if it is not there. -/
  | change (object : Nat) (f : Option Contents → Contents)
  /-- Ask for the next element and note it. -/
  | next

/-- The actions of one call, in order, and whether the call fails after them. -/
structure Reaction where
  actions : List Action := []
  fails : Bool := false

/-- A listener reacts to the payload and to what the objects in it hold. What it has seen before may
matter too, and in a given run that is a matter of how many calls the bus has made. -/
abbrev Listener := Nat → Objects → Payload → Reaction

/-- A listener that always does the same. -/
def Listener.always (r : Reaction) : Listener := fun _ _ _ => r

structure Bus where
  lists : Table Text (List Text) := []
  counts : Table Text Nat := []
  cast : Table Text Listener := []
  calls : Nat := 0
  /-- How deeply calls of listeners may be nested. -/
  nesting : Nat := 1000

namespace Bus

/-- The listeners of an event in the order of their subscriptions. -/
def listenersOf (b : Bus) (event : Text) : List Text := (b.lists.find? event).getD []

def emitCount (b : Bus) (event : Text) : Nat := (b.counts.find? event).getD 0

/-- A listener that was not introduced does nothing. -/
def listener (b : Bus) (name : Text) : Listener := (b.cast.find? name).getD (.always {})

/-- The first introduction of a listener stands. -/
def introduce (b : Bus) (name : Text) (l : Listener) : Bus :=
  if (b.cast.find? name).isSome then b else { b with cast := b.cast.put name l }

def subscribe (b : Bus) (event name : Text) : Bus :=
  if name ∈ b.listenersOf event then b
  else { b with lists := b.lists.put event (b.listenersOf event ++ [name]) }

def unsubscribe (b : Bus) (event name : Text) : Bus :=
  if name ∈ b.listenersOf event then
    { b with lists := b.lists.put event ((b.listenersOf event).erase name) }
  else b

def count (b : Bus) (event : Text) : Bus :=
  { b with counts := b.counts.put event (b.emitCount event + 1) }

def countCall (b : Bus) : Bus := { b with calls := b.calls + 1 }

theorem subscribe_of_mem {b : Bus} {event name : Text} (h : name ∈ b.listenersOf event) :
    b.subscribe event name = b := by
  rw [subscribe, if_pos h]

theorem unsubscribe_of_not_mem {b : Bus} {event name : Text} (h : name ∉ b.listenersOf event) :
    b.unsubscribe event name = b := by
  rw [unsubscribe, if_neg h]

theorem listenersOf_subscribe (b : Bus) (event name : Text) :
    (b.subscribe event name).listenersOf event =
      if name ∈ b.listenersOf event then b.listenersOf event
      else b.listenersOf event ++ [name] := by
  by_cases h : name ∈ b.listenersOf event
  · simp [subscribe, h]
  · rw [subscribe, if_neg h, if_neg h]
    simp [listenersOf, Table.find?_put_self]

theorem listenersOf_unsubscribe (b : Bus) (event name : Text) :
    (b.unsubscribe event name).listenersOf event = (b.listenersOf event).erase name := by
  by_cases h : name ∈ b.listenersOf event
  · rw [unsubscribe, if_pos h]
    simp [listenersOf, Table.find?_put_self]
  · rw [unsubscribe_of_not_mem h, List.erase_of_not_mem h]

theorem listenersOf_subscribe_of_ne (b : Bus) {event other : Text} (h : other ≠ event)
    (name : Text) : (b.subscribe event name).listenersOf other = b.listenersOf other := by
  unfold subscribe
  split
  · rfl
  · simp [listenersOf, Table.find?_put_of_ne _ h]

theorem listenersOf_unsubscribe_of_ne (b : Bus) {event other : Text} (h : other ≠ event)
    (name : Text) : (b.unsubscribe event name).listenersOf other = b.listenersOf other := by
  unfold unsubscribe
  split
  · simp [listenersOf, Table.find?_put_of_ne _ h]
  · rfl

theorem nodup_subscribe {b : Bus} {event : Text} (h : (b.listenersOf event).Nodup) (name : Text) :
    ((b.subscribe event name).listenersOf event).Nodup := by
  rw [listenersOf_subscribe]
  split
  · exact h
  · rename_i hn
    rw [List.nodup_append]
    refine ⟨h, by simp, ?_⟩
    intro a ha c hc
    rw [List.mem_singleton] at hc
    subst hc
    exact fun e => hn (e ▸ ha)

theorem nodup_unsubscribe {b : Bus} {event : Text} (h : (b.listenersOf event).Nodup)
    (name : Text) : ((b.unsubscribe event name).listenersOf event).Nodup := by
  rw [listenersOf_unsubscribe]
  exact h.erase name

end Bus

end Playscript
