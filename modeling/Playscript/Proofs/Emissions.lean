import Playscript.Proofs.Journals

/-!
# Emissions

Who hears of an event. An emission reads the list of its event once, when it begins, and then calls
who is on it, one after the other and with the payload as it was given, whatever the calls do to
lists, counts and payloads or how they end. A call that fails is logged and has no other
consequence. The objects in a payload are the same for all who are called: what one of them puts
into an object the next one finds there, and what no one has changed is as it was.

* `Visit`, `Heard`: the calls of an emission, and what it comes to in terms of them.
* `Records.heard`: an emission is heard so if its calls are recorded.
* `records_call`, `records_callAs`: calls are recorded, of listeners that a bus knows and of others.
* `heard_of_quiet`, `heard_of_cast`: the emissions that they hear.
* `emission_heard_by_listed`: who hears of an event, and what that leaves behind.
-/

namespace Playscript

namespace Stage

variable {α : Type}

/-! ## Visits -/

/-- A call in the course of an emission: who is called and with what, the stage on which that is
done, what happens until the call is over, and whether it fails. -/
structure Visit (α : Type) where
  listener : Text
  payload : Payload
  stage : Stage α
  inside : List Happening
  fails : Bool

/-- What a visit adds to the journal. A failure is logged last, and once. -/
def Visit.entries (event : Text) (v : Visit α) : List Happening :=
  .called v.listener v.payload ::
    (v.inside ++ if v.fails then [.logged (failureRecord event)] else [])

/-- The visit is a call. -/
structure Visit.Made (call : Caller α) (v : Visit α) : Prop where
  ends : (call v.stage v.listener v.payload).2 = !v.fails
  continues : v.stage.Continues (call v.stage v.listener v.payload).1
    (.called v.listener v.payload :: v.inside)

/-- An emission on the stage `s` that these visits make up, and that leads to the stage `t`. -/
structure Heard (call : Caller α) (event : Text) (payload : Payload) (s t : Stage α)
    (visits : List (Visit α)) : Prop where
  /-- Who is on the list when the emission begins is called, in the order of the list. -/
  listeners : visits.map Visit.listener = s.bus.listenersOf event
  payloads : ∀ v ∈ visits, v.payload = payload
  made : ∀ v ∈ visits, v.Made call
  /-- Each visit begins where those before it have ended, with the objects as they have left them.
  -/
  begins : ∀ before v after, visits = before ++ v :: after →
    s.Continues v.stage (.emitted event payload :: before.flatMap (Visit.entries event))
  /-- An object that no one has changed so far holds what it held when the emission began. -/
  unchanged : ∀ before v after, visits = before ++ v :: after → ∀ object,
    (∀ w ∈ before, ∀ h ∈ w.inside, h.changes object = false) →
      v.stage.objects.find? object = s.objects.find? object
  /-- The emission adds the visits to the journal, and nothing else. -/
  continues : s.Continues t (.emitted event payload :: visits.flatMap (Visit.entries event))
  /-- It is counted, and so are the emissions inside it. -/
  counts : ∀ other, t.bus.emitCount other = s.bus.emitCount other
    + ((if other = event then 1 else 0)
      + (visits.flatMap Visit.inside).countP (Happening.emits other))

/-- What is emitted in visits is emitted inside their calls. -/
theorem countP_entries (event other : Text) (visits : List (Visit α)) :
    (visits.flatMap (Visit.entries event)).countP (Happening.emits other) =
      (visits.flatMap Visit.inside).countP (Happening.emits other) := by
  induction visits with
  | nil => rfl
  | cons v rest ih =>
    have hv : (v.entries event).countP (Happening.emits other) =
        v.inside.countP (Happening.emits other) := by
      rw [Visit.entries, List.countP_cons_of_neg (by simp [Happening.emits]), List.countP_append]
      cases v.fails <;> rfl
    rw [List.flatMap_cons, List.flatMap_cons, List.countP_append, List.countP_append, hv, ih]

/-- What is changed in visits is changed inside their calls. -/
theorem changes_entries {event : Text} {object : Nat} {visits : List (Visit α)}
    (h : ∀ w ∈ visits, ∀ g ∈ w.inside, g.changes object = false) :
    ∀ g ∈ visits.flatMap (Visit.entries event), g.changes object = false := by
  intro g hg
  obtain ⟨w, hw, hg⟩ := List.mem_flatMap.1 hg
  rw [Visit.entries, List.mem_cons, List.mem_append] at hg
  rcases hg with rfl | hg | hg
  · rfl
  · exact h w hw g hg
  · split at hg
    · obtain rfl : g = .logged (failureRecord event) := List.mem_singleton.1 hg
      rfl
    · cases hg

/-! ## Emissions made up of recorded calls -/

/-- While `I` holds, a call is noted first, and whatever happens in it comes after that. -/
def Records (I : Stage α → Prop) (call : Caller α) : Prop :=
  ∀ s name payload, I s → I (call s name payload).1 ∧
    ((s.onBus Bus.countCall).note (.called name payload)).Extends (call s name payload).1

/-- The part of an emission that is about these names, from the stage `s` to the stage `t`. -/
structure Walk (I : Stage α → Prop) (call : Caller α) (event : Text) (payload : Payload)
    (names : List Text) (s t : Stage α) (visits : List (Visit α)) : Prop where
  listeners : visits.map Visit.listener = names
  payloads : ∀ v ∈ visits, v.payload = payload
  holds : ∀ v ∈ visits, I v.stage
  made : ∀ v ∈ visits, v.Made call
  begins : ∀ before v after, visits = before ++ v :: after →
    s.Continues v.stage (before.flatMap (Visit.entries event))
  continues : s.Continues t (visits.flatMap (Visit.entries event))
  keeps : I t

section
variable {I : Stage α → Prop} {call : Caller α} {s : Stage α}

/-- One listener is called, and what comes of it. -/
theorem Records.visit (h : Records I call) (hlog : ∀ s r, I s → I (s.log r)) (hs : I s)
    (event : Text) (payload : Payload) (name : Text) :
    ∃ v : Visit α, v.listener = name ∧ v.payload = payload ∧ v.stage = s ∧ v.Made call ∧
      s.Continues (deliver call event payload s name) (v.entries event) ∧
      I (deliver call event payload s name) := by
  obtain ⟨hkept, inside, hinside⟩ := h s name payload hs
  have hcall := (s.continues_called name payload).trans hinside
  refine ⟨⟨name, payload, s, inside, !(call s name payload).2⟩, rfl, rfl, rfl,
    ⟨by rw [Bool.not_not], hcall⟩, ?_⟩
  rw [deliver, Visit.entries]
  cases (call s name payload).2 with
  | true =>
    simp only [if_true, Bool.not_true, Bool.false_eq_true, if_false, List.append_nil]
    exact ⟨hcall, hkept⟩
  | false =>
    simp only [Bool.false_eq_true, if_false, Bool.not_false, if_true]
    exact ⟨hcall.trans (continues_log _ _), hlog _ _ hkept⟩

/-- The induction is on the names that are left of the list. -/
theorem Records.walk (h : Records I call) (hlog : ∀ s r, I s → I (s.log r)) (event : Text)
    (payload : Payload) (names : List Text) (hs : I s) :
    ∃ visits, Walk I call event payload names s (names.foldl (deliver call event payload) s)
      visits := by
  induction names generalizing s with
  | nil =>
    refine ⟨[], rfl, ?_, ?_, ?_, ?_, .refl s, hs⟩
    · simp
    · simp
    · simp
    · simp
  | cons name rest ih =>
    obtain ⟨v, hlistener, hpayload, hstage, hmade, hcontinues, hkept⟩ :=
      h.visit hlog hs event payload name
    obtain ⟨visits, hrest⟩ := ih hkept
    refine ⟨v :: visits, ?_, ?_, ?_, ?_, ?_, ?_, hrest.keeps⟩
    · rw [List.map_cons, hlistener, hrest.listeners]
    · exact List.forall_mem_cons.2 ⟨hpayload, hrest.payloads⟩
    · exact List.forall_mem_cons.2 ⟨hstage ▸ hs, hrest.holds⟩
    · exact List.forall_mem_cons.2 ⟨hmade, hrest.made⟩
    · intro before w after hsplit
      cases before with
      | nil =>
        obtain rfl : v = w := (List.cons.inj hsplit).1
        rw [hstage]
        exact .refl s
      | cons first before =>
        obtain ⟨rfl, htail⟩ := List.cons.inj hsplit
        exact hcontinues.trans (hrest.begins before w after htail)
    · exact hcontinues.trans hrest.continues

/-- An emission is its announcement and a walk along the list that it began with. -/
theorem Records.heard (h : Records I call) (hlog : ∀ s r, I s → I (s.log r))
    (hannounced : ∀ s event payload, I s → I (s.announced event payload)) (hs : I s)
    (event : Text) (payload : Payload) :
    I (emitWith call s event payload) ∧
      ∃ visits, Heard call event payload s (emitWith call s event payload) visits ∧
        ∀ v ∈ visits, I v.stage := by
  obtain ⟨visits, hwalk⟩ :=
    h.walk hlog event payload (s.bus.listenersOf event) (hannounced s event payload hs)
  rw [← emitWith_eq] at hwalk
  have hbegun := s.continues_announced event payload
  have hall := hbegun.trans hwalk.continues
  have hbegins : ∀ before v after, visits = before ++ v :: after →
      s.Continues v.stage (.emitted event payload :: before.flatMap (Visit.entries event)) :=
    fun before v after hsplit => hbegun.trans (hwalk.begins before v after hsplit)
  refine ⟨hwalk.keeps, visits,
    ⟨hwalk.listeners, hwalk.payloads, hwalk.made, hbegins, ?_, hall, ?_⟩, hwalk.holds⟩
  · intro before v after hsplit object hunchanged
    rw [(hbegins before v after hsplit).objects, List.foldl_cons,
      Happening.find?_settle (changes_entries hunchanged)]
    rfl
  · intro other
    rw [hall.counts, List.countP_append, countP_entries]
    by_cases ho : other = event
    · rw [if_pos ho, List.countP_cons_of_pos (by simp [Happening.emits, ho]), List.countP_nil]
    · rw [if_neg ho, List.countP_cons_of_neg (by simp [Happening.emits, Ne.symm ho]),
        List.countP_nil]

end

/-! ## Listeners that a bus knows -/

theorem listener_introduce_idle (b : Bus) (name : Text) :
    (b.introduce name (.always {})).listener = b.listener := by
  unfold Bus.introduce
  split
  · rfl
  · rename_i hnew
    funext other
    by_cases ho : other = name
    · subst ho
      have hnone : b.cast.find? other = none := by simpa using hnew
      simp only [Bus.listener, Table.find?_put_self, hnone, Option.getD_some, Option.getD_none]
    · simp only [Bus.listener, Table.find?_put_of_ne _ ho]

theorem listener_of_cast {b c : Bus} (h : c.cast = b.cast) : c.listener = b.listener := by
  funext name
  rw [Bus.listener, h]
  rfl

/-- In the course of calls a bus gets to know no listener that would do anything. -/
theorem closed_listener (stepWith : Emitter α → Stepper α) :
    Closed (· ≠ .next) stepWith fun s t => t.bus.listener = s.bus.listener where
  refl _ := rfl
  trans h h' := h'.trans h
  log _ _ := rfl
  called _ _ _ := rfl
  subscribe _ _ _ _ :=
    (listener_of_cast (Bus.cast_subscribe ..)).trans (listener_introduce_idle ..)
  unsubscribe _ _ _ _ :=
    (listener_of_cast (Bus.cast_unsubscribe ..)).trans (listener_introduce_idle ..)
  announced _ _ _ _ := rfl
  change _ _ _ _ := rfl
  stepped _ _ _ _ := rfl
  step h := absurd rfl h

/-- A call that does not step the engine comes to the end of its actions. No emission among them
stops it. -/
theorem perform_ends {emit : Emitter α} {step : Stepper α} {actions : List Action}
    (h : ∀ a ∈ actions, a ≠ .next) (name : Text) (own : Payload) (s : Stage α) :
    (perform emit step name actions own s).2 = true := by
  induction actions generalizing own s with
  | nil => rfl
  | cons a rest ih =>
    have hrest : ∀ a ∈ rest, a ≠ .next := fun a ha => h a (List.mem_cons_of_mem _ ha)
    cases a with
    | next => exact absurd rfl (h .next (List.mem_cons_self ..))
    | subscribe event other => exact ih hrest own _
    | unsubscribe event other => exact ih hrest own _
    | emit event payload => exact ih hrest own _
    | overwrite payload => exact ih hrest payload s
    | change object f => exact ih hrest own _

variable (stepWith : Emitter α → Stepper α)

/-- Whether a call fails is its listener's own affair. -/
theorem call_ends {s : Stage α} (h : s.bus.Quiet) (depth : Nat) (name : Text) (payload : Payload) :
    (call stepWith (depth + 1) s name payload).2 =
      !(s.bus.listener name s.bus.calls s.objects payload).fails := by
  simp only [call, perform_ends (h name s.bus.calls s.objects payload), Bool.true_and]

/-- The bus of the stage `t` knows the quiet listeners of `s`. -/
def Acquainted (s t : Stage α) : Prop := t.bus.Quiet ∧ t.bus.listener = s.bus.listener

theorem records_call (s : Stage α) (depth : Nat) :
    Records (Acquainted s) (call stepWith (depth + 1)) := by
  intro t name payload ht
  have hbegun : ((t.onBus Bus.countCall).note (.called name payload)).bus.Quiet := ht.1.of_cast rfl
  have hactions := ht.1 name t.bus.calls t.objects payload
  have hextends : Closed (· ≠ .next) stepWith Extends := closed_extends fun h => absurd rfl h
  have hlistener := closed_listener stepWith
  obtain ⟨hquiet, hextended⟩ := hextends.perform (hextends.emitWith (hextends.call depth)) name
    hactions payload _ hbegun
  obtain ⟨-, hsame⟩ := hlistener.perform (hlistener.emitWith (hlistener.call depth)) name
    hactions payload _ hbegun
  exact ⟨⟨hquiet, hsame.trans ht.2⟩, hextended⟩

/-- An emission that quiet listeners hear, with at least one call to go. -/
theorem heard_of_quiet {s : Stage α} (hq : s.bus.Quiet) (depth : Nat) (event : Text)
    (payload : Payload) :
    (emitWith (call stepWith (depth + 1)) s event payload).bus.Quiet ∧
      ∃ visits, Heard (call stepWith (depth + 1)) event payload s
          (emitWith (call stepWith (depth + 1)) s event payload) visits ∧
        ∀ v ∈ visits, v.fails =
          (s.bus.listener v.listener v.stage.bus.calls v.stage.objects payload).fails := by
  obtain ⟨hafter, visits, hheard, hholds⟩ := (records_call stepWith s depth).heard
    (fun _ _ h => ⟨h.1.of_cast rfl, h.2⟩) (fun _ _ _ h => ⟨h.1.of_cast rfl, h.2⟩) ⟨hq, rfl⟩
    event payload
  refine ⟨hafter.1, visits, hheard, fun v hv => ?_⟩
  obtain ⟨hquiet, hsame⟩ := hholds v hv
  have hends := (hheard.made v hv).ends
  rw [call_ends stepWith hquiet, hsame, hheard.payloads v hv] at hends
  exact (Bool.not_inj hends).symm

end Stage

namespace Engine

/-! ## Listeners of any conduct -/

theorem records_callAs (cast : Cast) (depth : Nat) :
    Stage.Records (fun _ => True) (callAs cast (depth + 1)) := by
  intro e name payload _
  have hcall := keeps_extends.callAs cast.only_true depth
  exact ⟨trivial, keeps_extends.carryOut (keeps_extends.emitWith hcall) name
    (cast.only_true e name payload) (called e name payload)⟩

/-- An emission that listeners of any conduct hear, with at least one call to go. -/
theorem heard_of_cast (cast : Cast) (depth : Nat) (e : Engine) (event : Text) (payload : Payload) :
    ∃ visits, Stage.Heard (callAs cast (depth + 1)) event payload e
      (Stage.emitWith (callAs cast (depth + 1)) e event payload) visits := by
  obtain ⟨-, visits, hheard, -⟩ := (records_callAs cast depth).heard (s := e)
    (fun _ _ _ => trivial) (fun _ _ _ _ => trivial) trivial event payload
  exact ⟨visits, hheard⟩

end Engine

open Stage (Emitter Stepper Visit Heard emitWith call)
open Engine (callAs emitAs serveWith)

def cheer : Text := "cheer".toList

/-- The first time it hears the cheer, the drum sends the fife off, brings the horn along, writes
into an object, cheers itself, and fails. -/
def excited : Listener := fun calls _ _ =>
  if calls = 0 then
    { actions := [.overwrite [], .unsubscribe cheer "fife".toList, .subscribe cheer "horn".toList,
        .change 0 fun _ => .items [.fixed .null], .emit cheer []]
      fails := true }
  else {}

/-- So does whoever hears the first cheer in this cast. -/
def excitable : Cast := fun e _ _ =>
  if e.bus.calls = 1 then
    .asks (.unsubscribe cheer "fife".toList) fun _ =>
      .asks (.subscribe cheer "horn".toList) fun _ => .asks (.emit cheer []) fun _ => .fails
  else .returns

/-- The drum and the fife listen to the cheer, in this order. -/
def crowd {α : Type} (world : α) : Stage α :=
  ((({ world } : Stage α).introduce "drum".toList excited).subscribe cheer
    "drum".toList).subscribe cheer "fife".toList

theorem quiet_crowd {α : Type} (world : α) : (crowd world).bus.Quiet := by
  have hexcited : excited.Quiet := by
    intro calls objects payload a ha
    unfold excited at ha
    split at ha
    · simp only [List.mem_cons, List.not_mem_nil, or_false] at ha
      rcases ha with rfl | rfl | rfl | rfl | rfl <;> nofun
    · cases ha
  exact (Bus.only_empty.introduce "drum".toList hexcited).of_cast rfl

/-- What a cheer tells. -/
def news : Payload := [("who".toList, .fixed .null), ("score".toList, .object 0)]

/-- The crowd after a cheer. -/
def cheered : Stage Unit := emitWith (call (fun _ => Stage.noEngine) 2) (crowd ()) cheer news

/-- A crowd at a play after a cheer. -/
def cheeredPlay : Engine :=
  emitWith (callAs excitable 2) (crowd { cursor := { text := [] } }) cheer []

/-- A drum that writes into an object, and a fife that fails where something is written in it. -/
def duet (first second : Text) : Stage Unit :=
  let drum : Listener := .always { actions := [.change 0 fun _ => .items []] }
  let fife : Listener := fun _ objects _ => { fails := (objects.find? 0).isSome }
  (((({ world := () } : Stage Unit).introduce "drum".toList drum).introduce "fife".toList
    fife).subscribe cheer first).subscribe cheer second

/-- What the drum has written, the fife finds when it is called after the drum. -/
example : (Stage.emitAlone (duet "drum".toList "fife".toList) cheer news).records =
    [Stage.failureRecord cheer] := by
  decide +kernel

example : (Stage.emitAlone (duet "fife".toList "drum".toList) cheer news).records = [] := by
  decide +kernel

end Playscript
