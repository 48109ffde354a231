import Playscript.Proofs.Conduct
import Playscript.Proofs.Runs

/-!
# What a journal says of its bus

A journal only grows, and what is added to it says what has become of the bus and of the objects
that listeners share: how often each event was emitted, who was put on its list or off it, and what
each object holds. That holds of every call and every emission, however deeply they are nested, and
of all that an engine does.

* `Happening.enrol`: what a happening does to the list of an event.
* `Happening.settle`: what it does to the objects.
* `Stage.Continues`: from one stage to another just these things happened.
* `Stage.Unannounced`: nothing was emitted in between.
* `closed_extends`: the journal of what listeners do that a bus knows.
* `unannounced_own`: the journal of what an engine does itself.
* `keeps_extends`: that of an engine with listeners of any conduct.
-/

namespace Playscript

namespace Happening

def emission? : Happening → Option Engine.Event
  | .emitted event payload => some (event, payload)
  | _ => none

/-- The happening is an emission of the event. -/
def emits (event : Text) : Happening → Bool
  | .emitted other _ => other = event
  | _ => false

/-- What a happening does to the list of an event. -/
def enrol (event : Text) (list : List Text) : Happening → List Text
  | .subscribed other name =>
    if other = event then if list.contains name then list else list ++ [name] else list
  | .unsubscribed other name => if other = event then list.erase name else list
  | _ => list

/-- What a happening does to the objects. -/
def settle (objects : Objects) : Happening → Objects
  | .changed object now => objects.put object now
  | _ => objects

/-- The happening is a change of the object. -/
def changes (object : Nat) : Happening → Bool
  | .changed other _ => other = object
  | _ => false

/-- A happening that changes neither counts nor lists nor objects. -/
def isNeutral : Happening → Bool
  | .emitted _ _ | .subscribed _ _ | .unsubscribed _ _ | .changed _ _ => false
  | _ => true

theorem emission?_of_neutral {h : Happening} (hn : h.isNeutral = true) : h.emission? = none := by
  cases h with
  | emitted event payload => cases hn
  | _ => rfl

/-- An event is emitted as often as it is among the emissions. -/
theorem countP_emits (event : Text) (hs : List Happening) :
    hs.countP (emits event) = (hs.filterMap emission?).countP (·.1 = event) := by
  induction hs with
  | nil => rfl
  | cons h rest ih =>
    cases h with
    | emitted other payload =>
      have hsome : (emitted other payload).emission? = some (other, payload) := rfl
      rw [List.filterMap_cons_some hsome, List.countP_cons, List.countP_cons, ih]
      rfl
    | _ => exact ih

theorem emits_of_neutral {h : Happening} (hn : h.isNeutral = true) (event : Text) :
    h.emits event = false := by
  cases h with
  | emitted other payload => cases hn
  | _ => rfl

theorem enrol_of_neutral {h : Happening} (hn : h.isNeutral = true) (event : Text)
    (list : List Text) : h.enrol event list = list := by
  cases h with
  | subscribed other name => cases hn
  | unsubscribed other name => cases hn
  | _ => rfl

theorem settle_of_neutral {h : Happening} (hn : h.isNeutral = true) (objects : Objects) :
    h.settle objects = objects := by
  cases h with
  | changed object now => cases hn
  | _ => rfl

/-- An object that nothing changes holds what it held. -/
theorem find?_settle {object : Nat} {hs : List Happening}
    (h : ∀ g ∈ hs, g.changes object = false) (objects : Objects) :
    (hs.foldl settle objects).find? object = objects.find? object := by
  induction hs generalizing objects with
  | nil => rfl
  | cons g rest ih =>
    rw [List.foldl_cons, ih fun g hg => h g (List.mem_cons_of_mem _ hg)]
    have hg := h g (List.mem_cons_self ..)
    cases g with
    | changed other now =>
      have hne : object ≠ other := fun e => by simp [changes, e] at hg
      exact Table.find?_put_of_ne _ hne now
    | _ => rfl

end Happening

namespace Stage

variable {α : Type} {s t u : Stage α} {hs later : List Happening}

/-- From `s` to `t` just these things happened, and the bus and the objects are what they say. -/
structure Continues (s t : Stage α) (hs : List Happening) : Prop where
  journal : t.journal = s.journal ++ hs
  counts : ∀ event,
    t.bus.emitCount event = s.bus.emitCount event + hs.countP (Happening.emits event)
  lists : ∀ event,
    t.bus.listenersOf event = hs.foldl (Happening.enrol event) (s.bus.listenersOf event)
  objects : t.objects = hs.foldl Happening.settle s.objects

theorem Continues.refl (s : Stage α) : s.Continues s [] :=
  ⟨(List.append_nil _).symm, fun _ => rfl, fun _ => rfl, rfl⟩

theorem Continues.trans (h : s.Continues t hs) (h' : t.Continues u later) :
    s.Continues u (hs ++ later) where
  journal := by rw [h'.journal, h.journal, List.append_assoc]
  counts event := by rw [h'.counts, h.counts, List.countP_append, Nat.add_assoc]
  lists event := by rw [h'.lists, h.lists, List.foldl_append]
  objects := by rw [h'.objects, h.objects, List.foldl_append]

/-- A note that changes neither counts nor lists nor objects. -/
theorem continues_note (s : Stage α) {h : Happening} (hn : h.isNeutral = true) :
    s.Continues (s.note h) [h] where
  journal := journal_note s h
  counts event := by
    rw [List.countP_cons_of_neg (by simp [Happening.emits_of_neutral hn]), List.countP_nil]
    rfl
  lists event := by
    rw [List.foldl_cons, Happening.enrol_of_neutral hn]
    rfl
  objects := by
    rw [List.foldl_cons, Happening.settle_of_neutral hn]
    rfl

theorem continues_onWorld (s : Stage α) (f : α → α) : s.Continues (s.onWorld f) [] :=
  ⟨(List.append_nil _).symm, fun _ => rfl, fun _ => rfl, rfl⟩

theorem continues_change (s : Stage α) (object : Nat) (f : Option Contents → Contents) :
    s.Continues (s.change object f) [.changed object (f (s.objects.find? object))] :=
  ⟨journal_note _ _, fun _ => rfl, fun _ => rfl, rfl⟩

theorem continues_log (s : Stage α) (r : Record) : s.Continues (s.log r) [.logged r] :=
  s.continues_note rfl

theorem continues_logAll (s : Stage α) (records : List Record) :
    s.Continues (s.logAll records) (records.map .logged) := by
  induction records generalizing s with
  | nil => exact .refl s
  | cons r rest ih => exact (s.continues_log r).trans (ih (s.log r))

theorem continues_introduce (s : Stage α) (name : Text) (l : Listener) :
    s.Continues (s.introduce name l) [] := by
  have hbus : (s.bus.introduce name l).counts = s.bus.counts ∧
      (s.bus.introduce name l).lists = s.bus.lists := by
    unfold Bus.introduce
    split <;> exact ⟨rfl, rfl⟩
  refine ⟨(List.append_nil _).symm, fun event => ?_, fun event => ?_, rfl⟩
  · show (s.bus.introduce name l).emitCount event = _
    rw [Bus.emitCount, hbus.1]
    rfl
  · show (s.bus.introduce name l).listenersOf event = _
    rw [Bus.listenersOf, hbus.2]
    rfl

theorem continues_called (s : Stage α) (name : Text) (payload : Payload) :
    s.Continues ((s.onBus Bus.countCall).note (.called name payload)) [.called name payload] :=
  ⟨journal_note _ _, fun _ => rfl, fun _ => rfl, rfl⟩

theorem continues_subscribe (s : Stage α) (event name : Text) :
    s.Continues (s.subscribe event name) [.subscribed event name] where
  journal := journal_note _ _
  counts other := by
    show (s.bus.subscribe event name).emitCount other = _
    unfold Bus.subscribe
    split <;> rfl
  lists other := by
    show (s.bus.subscribe event name).listenersOf other = _
    by_cases ho : event = other
    · subst ho
      rw [Bus.listenersOf_subscribe, List.foldl_cons, List.foldl_nil, Happening.enrol, if_pos rfl]
      simp only [List.contains_iff_mem]
    · rw [Bus.listenersOf_subscribe_of_ne _ (Ne.symm ho), List.foldl_cons, List.foldl_nil,
        Happening.enrol, if_neg ho]
  objects := rfl

theorem continues_unsubscribe (s : Stage α) (event name : Text) :
    s.Continues (s.unsubscribe event name) [.unsubscribed event name] where
  journal := journal_note _ _
  counts other := by
    show (s.bus.unsubscribe event name).emitCount other = _
    unfold Bus.unsubscribe
    split <;> rfl
  lists other := by
    show (s.bus.unsubscribe event name).listenersOf other = _
    rw [List.foldl_cons, List.foldl_nil, Happening.enrol]
    by_cases ho : event = other
    · subst ho
      rw [Bus.listenersOf_unsubscribe, if_pos rfl]
    · rw [Bus.listenersOf_unsubscribe_of_ne _ (Ne.symm ho), if_neg ho]
  objects := rfl

theorem continues_announced (s : Stage α) (event : Text) (payload : Payload) :
    s.Continues (s.announced event payload) [.emitted event payload] where
  journal := journal_note _ _
  counts other := by
    show (s.bus.count event).emitCount other = _
    by_cases ho : event = other
    · subst ho
      rw [Bus.emitCount_count, List.countP_cons_of_pos (by simp [Happening.emits])]
      rfl
    · rw [List.countP_cons_of_neg (by simp [Happening.emits, ho]), Bus.emitCount, Bus.count,
        Table.find?_put_of_ne _ (Ne.symm ho)]
      rfl
  lists _ := rfl
  objects := rfl

/-- The journal of `t` goes on from that of `s`, and says how their buses and objects differ. -/
def Extends (s t : Stage α) : Prop := ∃ hs, s.Continues t hs

theorem Extends.refl (s : Stage α) : s.Extends s := ⟨[], .refl s⟩

theorem Extends.trans (h : s.Extends t) (h' : t.Extends u) : s.Extends u := by
  obtain ⟨hs, hst⟩ := h
  obtain ⟨later, htu⟩ := h'
  exact ⟨hs ++ later, hst.trans htu⟩

theorem Continues.extends (h : s.Continues t hs) : s.Extends t := ⟨hs, h⟩

/-- From `s` to `t` nothing was emitted. -/
def Unannounced (s t : Stage α) : Prop := ∃ hs, s.Continues t hs ∧ ∀ h ∈ hs, h.emission? = none

theorem Unannounced.refl (s : Stage α) : s.Unannounced s := ⟨[], .refl s, by simp⟩

theorem Unannounced.trans (h : s.Unannounced t) (h' : t.Unannounced u) : s.Unannounced u := by
  obtain ⟨hs, hst, hnone⟩ := h
  obtain ⟨later, htu, hnone'⟩ := h'
  exact ⟨hs ++ later, hst.trans htu, List.forall_mem_append.2 ⟨hnone, hnone'⟩⟩

theorem Unannounced.extends (h : s.Unannounced t) : s.Extends t := by
  obtain ⟨hs, hst, -⟩ := h
  exact ⟨hs, hst⟩

theorem unannounced_note (s : Stage α) {h : Happening} (hn : h.isNeutral = true) :
    s.Unannounced (s.note h) :=
  ⟨[h], s.continues_note hn, List.forall_mem_singleton.2 (Happening.emission?_of_neutral hn)⟩

theorem unannounced_onWorld (s : Stage α) (f : α → α) : s.Unannounced (s.onWorld f) :=
  ⟨[], s.continues_onWorld f, by simp⟩

theorem unannounced_log (s : Stage α) (r : Record) : s.Unannounced (s.log r) :=
  s.unannounced_note rfl

theorem unannounced_logAll (s : Stage α) (records : List Record) :
    s.Unannounced (s.logAll records) := by
  refine ⟨_, s.continues_logAll records, fun h hmem => ?_⟩
  obtain ⟨r, -, rfl⟩ := List.mem_map.1 hmem
  rfl

/-- What listeners do the journal says of the bus, if it does so where they step the engine. -/
theorem closed_extends {P : Action → Prop} {stepWith : Emitter α → Stepper α}
    (hstep : P .next → ∀ emit : Emitter α,
      (∀ s event payload, Held P Extends (s.announced event payload) (emit s event payload)) →
      ∀ s, Held P Extends s (stepWith emit s).1) : Closed P stepWith Extends where
  refl := .refl
  trans := .trans
  log s r := (s.continues_log r).extends
  called s name payload := (s.continues_called name payload).extends
  subscribe s event name _ :=
    (s.continues_introduce name _).extends.trans (continues_subscribe _ event name).extends
  unsubscribe s event name _ :=
    (s.continues_introduce name _).extends.trans (continues_unsubscribe _ event name).extends
  announced s event payload _ := (s.continues_announced event payload).extends
  change s object f _ := (s.continues_change object f).extends
  stepped s _ _ _ := (s.continues_note rfl).extends
  step h := hstep h _

end Stage

namespace Engine

/-! ## What an engine does -/

theorem unannounced_moved (e : Engine) : e.Unannounced (moved e) :=
  (e.unannounced_onWorld _).trans (Stage.unannounced_logAll _ _)

theorem unannounced_fail (e : Engine) (error : ScriptError) : e.Unannounced (fail e error) :=
  (e.unannounced_onWorld _).trans (Stage.unannounced_log _ _)

theorem unannounced_applyWith (e : Engine) (effect : Effect) :
    e.Unannounced (applyWith unheard e effect) := by
  cases effect with
  | jump target path choices =>
    have hlogged := (e.unannounced_log target.loadRecord).trans (Stage.unannounced_log _
      ⟨.info, .directives, "jump -> ".toList ++ target.origin.getD "None".toList⟩)
    exact hlogged.trans (Stage.unannounced_onWorld _ fun (p : Player) =>
      { p with cursor := target, replaced := p.replaced + 1 })
  | background path =>
    exact (e.unannounced_onWorld fun p => { p with background := some path }).trans
      (Stage.unannounced_log _ _)

theorem unannounced_own_next (e : Engine) : e.Unannounced (nextWith unheard e).1 := by
  have hmoved := unannounced_moved e
  cases e.world.sort with
  | stopped h =>
    rw [nextWith_of_verdict h]
    exact .refl e
  | failing hs h =>
    rw [nextWith_of_error hs h]
    exact hmoved.trans (unannounced_fail ..)
  | ending hs h =>
    rw [nextWith_of_end hs h]
    exact hmoved.trans ((moved e).unannounced_onWorld Player.ended)
  | plain hs h hm =>
    rw [nextWith_of_plain hs h hm]
    exact hmoved.trans (Stage.unannounced_note _ rfl)
  | impossible hs h he =>
    rw [nextWith_of_unreadable hs h he]
    exact (hmoved.trans (Stage.unannounced_onWorld _ _)).trans (unannounced_fail ..)
  | @possible d effect hs h he =>
    rw [nextWith_of_effect hs h he]
    have htaken := (moved e).unannounced_note (h := .taken (.directive d)) rfl
    exact (hmoved.trans htaken).trans (unannounced_applyWith ..)

theorem unannounced_noteLoad (e : Engine) (load : Load) (path : Text) :
    e.Unannounced (noteLoad e load path) := by
  apply noteLoad_induct (P := e.Unannounced)
  · exact .refl e
  · exact fun f resolved h => h.trans (f.unannounced_note rfl)
  · exact fun f r h => h.trans (f.unannounced_log r)

/-- Whatever the engine is asked for, what it does itself comes before the first emission. -/
theorem unannounced_own (e : Engine) (r : Request) : e.Unannounced (serveWith unheard e r).1 := by
  cases r with
  | next => exact unannounced_own_next e
  | peek =>
    show e.Unannounced (peeked e)
    unfold peeked
    split
    · exact e.unannounced_logAll _
    · exact .refl e
  | background =>
    show e.Unannounced (backgroundImage e).1
    unfold backgroundImage
    split
    · exact .refl e
    · exact (e.unannounced_onWorld _).trans (unannounced_noteLoad ..)
  | portrait s => exact (e.unannounced_onWorld _).trans (unannounced_noteLoad ..)
  | snapshot => exact .refl e
  | addSprite s => exact e.unannounced_onWorld fun p => { p with sprites := p.sprites ++ [s] }
  | introduce name l => exact ⟨_, e.continues_introduce name l, by simp⟩
  | subscribe event name =>
    exact ⟨_, e.continues_subscribe event name, List.forall_mem_singleton.2 rfl⟩
  | unsubscribe event name =>
    exact ⟨_, e.continues_unsubscribe event name, List.forall_mem_singleton.2 rfl⟩
  | emit event payload => exact .refl e
  | look object => exact .refl e
  | change object f =>
    exact ⟨_, e.continues_change object f, List.forall_mem_singleton.2 rfl⟩
  | replaceScript c =>
    exact e.unannounced_onWorld fun p => { p with cursor := c, replaced := p.replaced + 1 }
  | advance => exact unannounced_moved e

/-- Whatever listeners ask an engine for, the journal says what becomes of the bus. -/
theorem keeps_extends : Keeps (fun _ => True) Stage.Extends where
  refl := .refl
  trans := .trans
  log e r := (e.continues_log r).extends
  called e name payload := (e.continues_called name payload).extends
  given e name a := by
    unfold noteGiven
    split
    · exact (e.continues_note rfl).extends
    · exact .refl e
  serve {emit r} _ hemit e := by
    rw [serveWith_eq_announce]
    exact (unannounced_own e r).extends.trans (announce_keeps .refl .trans (fun e event payload =>
      (e.continues_announced event payload).extends.trans (hemit e event payload)) _ _)

end Engine

end Playscript
