import Mathlib.Data.Nat.Find
import Playscript.Proofs.Course
import Playscript.Proofs.Trace
import Playscript.Proofs.Journals

/-!
# Subscriptions

Who is on the list of an event, and in which order, as the journal tells it: a listener is on the
list if it has subscribed since it was last removed, and its place is that of the first time it did
so. A removal is one whether it is asked for outright or with the function that a subscription
returned. It makes no difference who asks for it, and how deep inside an emission.

* `Enrolled`, `JoinsAt`: what a journal says of a listener.
* `Roll`: the list that a journal calls for.
* `Roll.snoc`, `Roll.run`: how that changes with what happens.
* `BusSession`: a bus of its own, and the functions that its subscriptions returned.
* `lists_of_subscriptions`: the lists are those that the journal calls for.
-/

namespace Playscript

variable {j : List Happening} {event name : Text} {list : List Text} {h : Happening} {k : Nat}

/-! ## Places in a journal -/

/-- At this place of the journal the listener subscribes, whether it is on the list or not. -/
def SubscribedAt (j : List Happening) (event name : Text) (k : Nat) : Prop :=
  j[k]? = some (.subscribed event name)

/-- At this place of the journal the listener is removed, whether it is on the list or not. -/
def RemovedAt (j : List Happening) (event name : Text) (k : Nat) : Prop :=
  j[k]? = some (.unsubscribed event name)

/-- The listener subscribes after its latest removal. -/
def Enrolled (j : List Happening) (event name : Text) : Prop :=
  ∃ k, SubscribedAt j event name k ∧ ∀ i, RemovedAt j event name i → i < k

/-- At this place the listener subscribes for the first time since its latest removal. -/
structure JoinsAt (j : List Happening) (event name : Text) (k : Nat) : Prop where
  subscribed : SubscribedAt j event name k
  stays : ∀ i, RemovedAt j event name i → i < k
  first : ∀ i < k, SubscribedAt j event name i → ∃ r, i < r ∧ RemovedAt j event name r

theorem getElem?_snoc {happened : Happening} :
    (j ++ [h])[k]? = some happened ↔ j[k]? = some happened ∨ k = j.length ∧ h = happened := by
  rcases Nat.lt_trichotomy k j.length with hk | rfl | hk
  · rw [List.getElem?_append_left hk]
    exact ⟨.inl, fun hor => hor.elim id fun hend => absurd hend.1 (Nat.ne_of_lt hk)⟩
  · rw [List.getElem?_concat_length, List.getElem?_eq_none (Nat.le_refl _)]
    simp
  · rw [List.getElem?_eq_none (by simp; omega), List.getElem?_eq_none (Nat.le_of_lt hk)]
    simp only [reduceCtorEq, false_or, false_iff]
    exact fun hend => absurd hend.1 (Nat.ne_of_gt hk)

theorem SubscribedAt.lt_length (hs : SubscribedAt j event name k) : k < j.length :=
  (List.getElem?_eq_some_iff.1 hs).1

theorem RemovedAt.lt_length (hr : RemovedAt j event name k) : k < j.length :=
  (List.getElem?_eq_some_iff.1 hr).1

/-- There is one such place at most, so it is the place where the listener joins. -/
theorem JoinsAt.unique {i : Nat} (hi : JoinsAt j event name i) (hk : JoinsAt j event name k) :
    i = k := by
  rcases Nat.lt_trichotomy i k with hlt | heq | hlt
  · obtain ⟨r, hir, hr⟩ := hk.first i hlt hi.subscribed
    exact absurd (hi.stays r hr) (Nat.lt_asymm hir)
  · exact heq
  · obtain ⟨r, hkr, hr⟩ := hi.first k hlt hk.subscribed
    exact absurd (hk.stays r hr) (Nat.lt_asymm hkr)

/-- Of the subscriptions after the latest removal one is the first. -/
theorem Enrolled.joins (he : Enrolled j event name) : ∃ k, JoinsAt j event name k := by
  classical
  obtain ⟨hsubscribed, hstays⟩ := Nat.find_spec he
  refine ⟨Nat.find he, hsubscribed, hstays, fun i hi hs => ?_⟩
  have hearlier := Nat.find_min he hi
  simp only [not_and, not_forall, not_lt] at hearlier
  obtain ⟨r, hr, hir⟩ := hearlier hs
  refine ⟨r, Nat.lt_of_le_of_ne hir fun heq => ?_, hr⟩
  subst heq
  rw [SubscribedAt, hr] at hs
  cases hs

/-! ## One more happening -/

/-- What is not about the listener leaves it enrolled or not. -/
theorem enrolled_snoc_of_ne (hs : h ≠ .subscribed event name) (hr : h ≠ .unsubscribed event name) :
    Enrolled (j ++ [h]) event name ↔ Enrolled j event name := by
  simp only [Enrolled, SubscribedAt, RemovedAt, getElem?_snoc, hs, hr, and_false, or_false]

theorem joinsAt_subscribed (he : ¬Enrolled j event name) :
    JoinsAt (j ++ [.subscribed event name]) event name j.length where
  subscribed := getElem?_snoc.2 (.inr ⟨rfl, rfl⟩)
  stays i hr := by
    rcases getElem?_snoc.1 hr with hr | ⟨-, h⟩
    · exact RemovedAt.lt_length hr
    · cases h
  first i hi hs := by
    rcases getElem?_snoc.1 hs with hs | ⟨heq, -⟩
    · by_contra hnone
      refine he ⟨i, hs, fun r hr => ?_⟩
      by_contra hle
      refine hnone ⟨r, Nat.lt_of_le_of_ne (Nat.not_lt.1 hle) fun heq => ?_,
        getElem?_snoc.2 (.inl hr)⟩
      subst heq
      rw [RemovedAt, hs] at hr
      cases hr
    · exact absurd heq (Nat.ne_of_lt hi)

theorem enrolled_subscribed (j : List Happening) (event name : Text) :
    Enrolled (j ++ [.subscribed event name]) event name := by
  refine ⟨j.length, getElem?_snoc.2 (.inr ⟨rfl, rfl⟩), fun i hr => ?_⟩
  rcases getElem?_snoc.1 hr with hr | ⟨-, h⟩
  · exact RemovedAt.lt_length hr
  · cases h

theorem not_enrolled_unsubscribed (j : List Happening) (event name : Text) :
    ¬Enrolled (j ++ [.unsubscribed event name]) event name := by
  rintro ⟨k, hs, hstays⟩
  rcases getElem?_snoc.1 hs with hs | ⟨-, h⟩
  · have hlast := hstays j.length (getElem?_snoc.2 (.inr ⟨rfl, rfl⟩))
    exact absurd (SubscribedAt.lt_length hs) (Nat.lt_asymm hlast)
  · cases h

/-- A listener keeps its place until it is removed. Another subscription does not move it. -/
theorem JoinsAt.snoc (hj : JoinsAt j event name k) (hr : h ≠ .unsubscribed event name) :
    JoinsAt (j ++ [h]) event name k where
  subscribed := getElem?_snoc.2 (.inl hj.subscribed)
  stays i hi := by
    rcases getElem?_snoc.1 hi with hi | ⟨-, heq⟩
    · exact hj.stays i hi
    · exact absurd heq hr
  first i hi hs := by
    rcases getElem?_snoc.1 hs with hs | ⟨rfl, -⟩
    · obtain ⟨r, hir, hremoved⟩ := hj.first i hi hs
      exact ⟨r, hir, getElem?_snoc.2 (.inl hremoved)⟩
    · exact absurd hj.subscribed.lt_length (Nat.lt_asymm hi)

/-! ## Rolls -/

/-- The first listener has joined before the second. -/
def JoinsBefore (j : List Happening) (event name other : Text) : Prop :=
  ∃ i k, JoinsAt j event name i ∧ JoinsAt j event other k ∧ i < k

/-- The list of the event that the journal calls for: no listener is on it twice, those who are
subscribed after their latest removal, and they are in the order in which they first did so. -/
structure Roll (event : Text) (j : List Happening) (list : List Text) : Prop where
  nodup : list.Nodup
  mem_iff : ∀ name, name ∈ list ↔ Enrolled j event name
  order : list.Pairwise (JoinsBefore j event)

theorem JoinsBefore.snoc {other : Text} (hb : JoinsBefore j event name other)
    (hr : h ≠ .unsubscribed event name) (hr' : h ≠ .unsubscribed event other) :
    JoinsBefore (j ++ [h]) event name other := by
  obtain ⟨i, k, hi, hk, hlt⟩ := hb
  exact ⟨i, k, hi.snoc hr, hk.snoc hr', hlt⟩

/-- Nobody is called for before anything has happened. -/
theorem Roll.nil (event : Text) : Roll event [] [] where
  nodup := List.nodup_nil
  mem_iff name := by
    refine ⟨fun hmem => absurd hmem List.not_mem_nil, fun ⟨k, hs, _⟩ => ?_⟩
    exact absurd hs.lt_length (Nat.not_lt_zero k)
  order := .nil

/-- What is not about the event leaves its list as it is. -/
theorem Roll.snoc_of_ne (hl : Roll event j list) (hs : ∀ name, h ≠ .subscribed event name)
    (hr : ∀ name, h ≠ .unsubscribed event name) : Roll event (j ++ [h]) list where
  nodup := hl.nodup
  mem_iff name := by rw [enrolled_snoc_of_ne (hs name) (hr name), hl.mem_iff]
  order := hl.order.imp fun hb => hb.snoc (hr _) (hr _)

theorem Roll.snoc_subscribed (hl : Roll event j list) (name : Text) :
    Roll event (j ++ [.subscribed event name]) (if name ∈ list then list else list ++ [name]) := by
  have hmem (other : Text) (ho : other ≠ name) :
      other ∈ list ↔ Enrolled (j ++ [.subscribed event name]) event other := by
    rw [enrolled_snoc_of_ne (by simp [Ne.symm ho]) (by simp), hl.mem_iff]
  have horder := hl.order.imp fun hb : JoinsBefore j event _ _ =>
    hb.snoc (h := .subscribed event name) (by simp) (by simp)
  split
  next hlisted =>
    refine ⟨hl.nodup, fun other => ?_, horder⟩
    by_cases ho : other = name
    · subst ho
      exact iff_of_true hlisted (enrolled_subscribed ..)
    · exact hmem other ho
  next hnew =>
    have hjoins := joinsAt_subscribed fun he => hnew ((hl.mem_iff name).2 he)
    refine ⟨?_, fun other => ?_, ?_⟩
    · refine List.nodup_append.2 ⟨hl.nodup, List.pairwise_singleton _ name, ?_⟩
      intro other hother last hlast heq
      rw [heq, List.mem_singleton.1 hlast] at hother
      exact hnew hother
    · rw [List.mem_append, List.mem_singleton]
      by_cases ho : other = name
      · subst ho
        exact iff_of_true (.inr rfl) (enrolled_subscribed ..)
      · rw [hmem other ho, or_iff_left ho]
    · refine List.pairwise_append.2 ⟨horder, List.pairwise_singleton _ name, ?_⟩
      intro other hother last hlast
      obtain rfl : last = name := List.mem_singleton.1 hlast
      obtain ⟨i, hi⟩ := ((hl.mem_iff other).1 hother).joins
      exact ⟨i, j.length, hi.snoc (by simp), hjoins, hi.subscribed.lt_length⟩

theorem Roll.snoc_unsubscribed (hl : Roll event j list) (name : Text) :
    Roll event (j ++ [.unsubscribed event name]) (list.erase name) where
  nodup := hl.nodup.erase name
  mem_iff other := by
    rw [hl.nodup.mem_erase_iff]
    by_cases ho : other = name
    · subst ho
      exact iff_of_false (fun hand => hand.1 rfl) (not_enrolled_unsubscribed j event other)
    · rw [enrolled_snoc_of_ne (by simp) (by simp [Ne.symm ho]), hl.mem_iff, and_iff_right ho]
  order := by
    refine (hl.order.sublist List.erase_sublist).imp_of_mem fun {a b} ha hb hbefore => ?_
    have ha' := (hl.nodup.mem_erase_iff.1 ha).1
    have hb' := (hl.nodup.mem_erase_iff.1 hb).1
    exact hbefore.snoc (by simp [Ne.symm ha']) (by simp [Ne.symm hb'])

/-- One happening does to the list what it does to the roll. -/
theorem Roll.snoc (hl : Roll event j list) (h : Happening) :
    Roll event (j ++ [h]) (h.enrol event list) := by
  cases h with
  | subscribed other name =>
    rw [Happening.enrol]
    by_cases ho : other = event
    · subst ho
      rw [if_pos rfl]
      simp only [List.contains_iff_mem]
      exact hl.snoc_subscribed name
    · rw [if_neg ho]
      exact hl.snoc_of_ne (by simp [ho]) (by simp)
  | unsubscribed other name =>
    rw [Happening.enrol]
    by_cases ho : other = event
    · subst ho
      rw [if_pos rfl]
      exact hl.snoc_unsubscribed name
    · rw [if_neg ho]
      exact hl.snoc_of_ne (by simp) (by simp [ho])
  | _ => exact hl.snoc_of_ne (by simp) (by simp)

/-- The induction is on what happens. -/
theorem Roll.run (hl : Roll event j list) (later : List Happening) :
    Roll event (j ++ later) (later.foldl (Happening.enrol event) list) := by
  induction later generalizing j list with
  | nil => rwa [List.append_nil]
  | cons h rest ih =>
    rw [List.append_cons]
    exact ih (hl.snoc h)

/-- What is not about the event leaves its list alone. -/
theorem foldl_enrol_of_forall {later : List Happening}
    (hl : ∀ name, .subscribed event name ∉ later ∧ .unsubscribed event name ∉ later)
    (list : List Text) : later.foldl (Happening.enrol event) list = list := by
  induction later with
  | nil => rfl
  | cons h rest ih =>
    have hsame : h.enrol event list = list := by
      cases h with
      | subscribed other name =>
        refine if_neg fun heq => (hl name).1 ?_
        rw [heq]
        exact List.mem_cons_self ..
      | unsubscribed other name =>
        refine if_neg fun heq => (hl name).2 ?_
        rw [heq]
        exact List.mem_cons_self ..
      | _ => rfl
    rw [List.foldl_cons, hsame]
    exact ih fun name => ⟨fun hmem => (hl name).1 (List.mem_cons_of_mem _ hmem),
      fun hmem => (hl name).2 (List.mem_cons_of_mem _ hmem)⟩

namespace Stage

variable {α : Type} {s t : Stage α}

/-- Every list of the bus is the one that the journal calls for. -/
def Rolled (s : Stage α) : Prop := ∀ event, Roll event s.journal (s.bus.listenersOf event)

/-- From `s` to `t` no list has changed but those of the events that someone has subscribed to or
was removed from. -/
def Undisturbed (s t : Stage α) : Prop :=
  ∃ hs, t.journal = s.journal ++ hs ∧
    ∀ event, (∀ name, .subscribed event name ∉ hs ∧ .unsubscribed event name ∉ hs) →
      t.bus.listenersOf event = s.bus.listenersOf event

theorem rolled_fresh (world : α) : ({ world } : Stage α).Rolled := Roll.nil

theorem Rolled.extends (hs : s.Rolled) (h : s.Extends t) : t.Rolled := by
  obtain ⟨later, hlater⟩ := h
  intro event
  rw [hlater.journal, hlater.lists]
  exact (hs event).run later

theorem Extends.undisturbed (h : s.Extends t) : s.Undisturbed t := by
  obtain ⟨hs, hcontinues⟩ := h
  refine ⟨hs, hcontinues.journal, fun event hnone => ?_⟩
  rw [hcontinues.lists, foldl_enrol_of_forall hnone]

end Stage

/-! ## A bus of its own -/

/-- The function that a subscription returns. It removes the listener, as often as it is called. -/
structure Handle where
  event : Text
  listener : Text

def Handle.call {α : Type} (h : Handle) (s : Stage α) : Stage α := s.unsubscribe h.event h.listener

/-- A bus without an engine, and the functions that its subscriptions have returned. -/
structure BusSession where
  stage : Stage Unit := { world := () }
  handles : List Handle := []

namespace BusSession

/-- What one may do with a bus. -/
inductive Order
  | introduce (name : Text) (l : Listener)
  | subscribe (event name : Text)
  | unsubscribe (event name : Text)
  /-- Call the function that this subscription of the session returned. -/
  | revoke (k : Nat)
  | emit (event : Text) (payload : Payload)
  | change (object : Nat) (f : Option Contents → Contents)

def obey (b : BusSession) : Order → BusSession
  | .introduce name l => { b with stage := b.stage.introduce name l }
  | .subscribe event name =>
    { stage := b.stage.subscribe event name, handles := b.handles ++ [⟨event, name⟩] }
  | .unsubscribe event name => { b with stage := b.stage.unsubscribe event name }
  | .revoke k =>
    match b.handles[k]? with
    | none => b
    | some h => { b with stage := h.call b.stage }
  | .emit event payload => { b with stage := Stage.emitAlone b.stage event payload }
  | .change object f => { b with stage := b.stage.change object f }

def obeyAll (b : BusSession) (orders : List Order) : BusSession := orders.foldl obey b

theorem extends_emitAlone (s : Stage Unit) (event : Text) (payload : Payload) :
    s.Extends (Stage.emitAlone s event payload) := by
  have hclosed : Stage.Closed (fun _ => True) (fun _ => Stage.noEngine) Stage.Extends :=
    Stage.closed_extends fun _ _ _ s hs => ⟨hs, .refl s⟩
  have hemit := hclosed.emit s event payload fun _ _ _ _ _ _ => trivial
  exact (s.continues_announced event payload).extends.trans hemit.2

theorem extends_obey (b : BusSession) (o : Order) : b.stage.Extends (b.obey o).stage := by
  cases o with
  | introduce name l => exact (b.stage.continues_introduce name l).extends
  | subscribe event name => exact (b.stage.continues_subscribe event name).extends
  | unsubscribe event name => exact (b.stage.continues_unsubscribe event name).extends
  | revoke k =>
    rw [obey]
    split
    · exact .refl _
    · exact (b.stage.continues_unsubscribe _ _).extends
  | emit event payload => exact extends_emitAlone b.stage event payload
  | change object f => exact (b.stage.continues_change object f).extends

theorem rolled_obeyAll {b : BusSession} (hb : b.stage.Rolled) (orders : List Order) :
    (b.obeyAll orders).stage.Rolled := by
  induction orders generalizing b with
  | nil => exact hb
  | cons o rest ih => exact ih (hb.extends (extends_obey b o))

end BusSession

/-! ## The bus of an engine -/

namespace Engine

/-- Building an engine only writes to the log. -/
theorem Built.eq_logAll {e : Engine} (h : Built e) : ∃ config files decoder cursor records,
    e = (fresh config files decoder cursor).logAll records := by
  cases h with
  | start config files decoder cursor =>
    exact ⟨config, files, decoder, cursor, [startRecord cursor], rfl⟩
  | @ofFile config files decoder path shown e h =>
    unfold Engine.ofFile at h
    split at h
    · cases h
    · rename_i cursor _
      exact ⟨config, files, decoder, cursor, [cursor.loadRecord, startRecord cursor],
        (Except.ok.inj h).symm⟩

theorem Built.rolled {e : Engine} (h : Built e) : e.Rolled := by
  obtain ⟨config, files, decoder, cursor, records, rfl⟩ := h.eq_logAll
  have hfresh : (fresh config files decoder cursor).Rolled := Stage.rolled_fresh _
  exact hfresh.extends (Stage.continues_logAll _ records).extends

theorem lasting_rolled : Lasting (fun _ => True) Stage.Rolled where
  log r he := he.extends (keeps_extends.log _ r)
  called name payload he := he.extends (keeps_extends.called _ name payload)
  given name a he := he.extends (keeps_extends.given _ name a)
  announced event payload he := he.extends (Stage.continues_announced _ event payload).extends
  own _ he := he.extends (unannounced_own ..).extends

end Engine

open Engine (Built emitAs serveWith serveAllAs course)

/-- **The lists are those that the subscriptions call for.** On a bus of its own that holds after
any session with any listeners, for the functions that subscriptions return as well, however late
and often they are called; on the bus of an engine it holds whenever anything is asked by anyone,
inside emissions too. What is done about one event leaves the lists of others alone, and what is so
already leaves the bus as it is. -/
theorem lists_of_subscriptions :
    (∀ orders : List BusSession.Order, (BusSession.obeyAll {} orders).stage.Rolled) ∧
    (∀ (cast : Cast) (e : Engine) (rs : List Engine.Request), Built e →
      (serveAllAs cast e rs).1.Rolled ∧
        ∀ m ∈ course cast rs e, m.engine.Rolled ∧ m.after.Rolled) ∧
    (∀ (b : BusSession) (o : BusSession.Order), b.stage.Undisturbed (b.obey o).stage) ∧
    (∀ (cast : Cast) (e : Engine) (r : Engine.Request),
      e.Undisturbed (serveWith (emitAs cast) e r).1) ∧
    ∀ {α : Type} (s : Stage α) (h : Handle),
      (∀ other, other ≠ h.event →
        (s.subscribe h.event h.listener).bus.listenersOf other = s.bus.listenersOf other ∧
        (s.unsubscribe h.event h.listener).bus.listenersOf other = s.bus.listenersOf other ∧
        (h.call s).bus.listenersOf other = s.bus.listenersOf other) ∧
      (h.listener ∈ s.bus.listenersOf h.event → (s.subscribe h.event h.listener).bus = s.bus) ∧
      (h.listener ∉ s.bus.listenersOf h.event →
        (s.unsubscribe h.event h.listener).bus = s.bus ∧ (h.call s).bus = s.bus) := by
  refine ⟨BusSession.rolled_obeyAll (Stage.rolled_fresh ()), ?_, ?_, ?_, ?_⟩
  · intro cast e rs he
    exact Engine.lasts_course Engine.lasting_rolled cast.only_true (fun _ _ => trivial) he.rolled
  · exact fun b o => (BusSession.extends_obey b o).undisturbed
  · intro cast e r
    have hemit := Engine.keeps_extends.emitAs cast.only_true
    exact (Engine.keeps_extends.serve trivial hemit e).undisturbed
  · intro α s h
    refine ⟨fun other ho => ?_, fun hmem => Bus.subscribe_of_mem hmem, fun hmem => ?_⟩
    · have hremoved := s.bus.listenersOf_unsubscribe_of_ne ho h.listener
      exact ⟨s.bus.listenersOf_subscribe_of_ne ho h.listener, hremoved, hremoved⟩
    · have hsame := Bus.unsubscribe_of_not_mem hmem
      exact ⟨hsame, hsame⟩

/-! ## A queue -/

def bell : Text := "bell".toList

/-- When the bell rings for the first time, the hare leaves its place and comes back at once. -/
def restless : Cast := fun e name _ =>
  if name = "hare".toList ∧ e.bus.emitCount bell = 1 then
    .asks (.unsubscribe bell name) fun _ => .asks (.subscribe bell name) fun _ => .returns
  else .returns

/-- The hare comes before the snail, and asks for its place twice. -/
def queue : List Engine.Request :=
  [.subscribe bell "hare".toList, .subscribe bell "snail".toList, .subscribe bell "hare".toList,
    .emit bell []]

/-- The same without an engine. The hare is sent away twice in a row, and a third time after it has
come back. -/
def queueAlone : List BusSession.Order :=
  [.subscribe bell "hare".toList, .subscribe bell "snail".toList, .revoke 0, .revoke 0,
    .subscribe bell "hare".toList, .revoke 0]

theorem lists_of_subscriptions_queue :
    (Engine.Built Engine.postcard ∧ (serveAllAs restless Engine.postcard queue).1.Rolled ∧
        (serveAllAs restless Engine.postcard queue).1.bus.listenersOf bell =
          ["snail".toList, "hare".toList]) ∧
      (BusSession.obeyAll {} queueAlone).stage.Rolled ∧
        (BusSession.obeyAll {} queueAlone).stage.bus.listenersOf bell = ["snail".toList] := by
  obtain ⟨hbuses, hengines, -⟩ := lists_of_subscriptions
  have hbuilt : Engine.Built Engine.postcard := .start ..
  exact ⟨⟨hbuilt, (hengines restless Engine.postcard queue hbuilt).1, by decide +kernel⟩,
    hbuses queueAlone, by decide +kernel⟩

end Playscript
