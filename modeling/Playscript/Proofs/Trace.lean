import Playscript.Proofs.Journals

/-!
# The trace of a play

What an engine tells the world can be told from the elements that it gave. Each background is
announced once, each jump twice: first the script that it led to, then the jump. Nothing else is
announced, and nothing before it is sure to be given. Listeners that neither call the engine nor
emit anything add nothing to that.

* `Stage.emissions`, `Stage.Tells`: the events that were emitted, and those added by a part of a
  run.
* `trace`: the events that elements stand for.
* `Hushes.serve`: a request announces the events of the element that it gives.
* `Hushes.told`: a session announces the trace of the elements it gives.
* `emissions_of_elements`: the events, their counts and the background after a session.
-/

namespace Playscript

open Engine (Event elementsOf)

/-! ## Events -/

namespace Stage

variable {α : Type} {s t u : Stage α} {events later : List Event}

/-- The events that were emitted, in order. -/
def emissions (s : Stage α) : List Event := s.journal.filterMap Happening.emission?

/-- From `s` to `t` just these events were emitted, and counted. -/
structure Tells (s t : Stage α) (events : List Event) : Prop where
  emissions : t.emissions = s.emissions ++ events
  counts : ∀ event, t.bus.emitCount event = s.bus.emitCount event + events.countP (·.1 = event)

theorem Tells.refl (s : Stage α) : s.Tells s [] := ⟨(List.append_nil _).symm, fun _ => rfl⟩

theorem Tells.trans (h : s.Tells t events) (h' : t.Tells u later) :
    s.Tells u (events ++ later) where
  emissions := by rw [h'.emissions, h.emissions, List.append_assoc]
  counts event := by rw [h'.counts, h.counts, List.countP_append, Nat.add_assoc]

/-- What happened tells the emissions among it. -/
theorem Continues.tells {hs : List Happening} (h : s.Continues t hs) :
    s.Tells t (hs.filterMap Happening.emission?) where
  emissions := by rw [emissions, h.journal, List.filterMap_append, emissions]
  counts event := by rw [h.counts, Happening.countP_emits]

theorem Unannounced.tells (h : s.Unannounced t) : s.Tells t [] := by
  obtain ⟨hs, hst, hnone⟩ := h
  have htells := hst.tells
  rwa [List.filterMap_eq_nil_iff.2 hnone] at htells

/-- The world is the same, and nothing was emitted in between. -/
structure Hushed (s t : Stage α) : Prop where
  world : t.world = s.world
  tells : s.Tells t []

theorem Hushed.refl (s : Stage α) : s.Hushed s := ⟨rfl, .refl s⟩

theorem Hushed.trans (h : s.Hushed t) (h' : t.Hushed u) : s.Hushed u :=
  ⟨h'.world.trans h.world, h.tells.trans h'.tells⟩

theorem Hushed.introduce (s : Stage α) (name : Text) (l : Listener) :
    s.Hushed (s.introduce name l) := ⟨rfl, (s.continues_introduce name l).tells⟩

theorem Hushed.subscribe (s : Stage α) (event name : Text) : s.Hushed (s.subscribe event name) :=
  ⟨rfl, (s.continues_subscribe event name).tells⟩

theorem Hushed.unsubscribe (s : Stage α) (event name : Text) :
    s.Hushed (s.unsubscribe event name) := ⟨rfl, (s.continues_unsubscribe event name).tells⟩

theorem Hushed.called (s : Stage α) (name : Text) (payload : Payload) :
    s.Hushed ((s.onBus Bus.countCall).note (.called name payload)) :=
  ⟨rfl, (s.continues_called name payload).tells⟩

theorem Hushed.change (s : Stage α) (object : Nat) (f : Option Contents → Contents) :
    s.Hushed (s.change object f) := ⟨rfl, (s.continues_change object f).tells⟩

end Stage

/-! ## Listeners -/

/-- An action that neither calls the engine nor emits anything. -/
def Action.Arranges : Action → Prop
  | .next | .emit _ _ => False
  | _ => True

/-- A request that is about who listens to what, or about the objects in payloads, and nothing
else. -/
def Engine.Request.Arranges : Engine.Request → Prop
  | .introduce _ _ | .subscribe _ _ | .unsubscribe _ _ | .look _ | .change _ _ => True
  | _ => False

theorem Stage.closed_hushed {α : Type} (stepWith : Emitter α → Stepper α) :
    Closed Action.Arranges stepWith Hushed where
  refl := .refl
  trans := .trans
  log s r := ⟨rfl, (s.unannounced_log r).tells⟩
  called := .called
  subscribe s event name _ := (Hushed.introduce s name _).trans (.subscribe _ event name)
  unsubscribe s event name _ := (Hushed.introduce s name _).trans (.unsubscribe _ event name)
  announced _ _ _ h := h.elim
  change s object f _ := .change s object f
  stepped _ _ _ h := h.elim
  step h := h.elim

namespace Engine

theorem hushed_noteGiven (e : Engine) (name : Text) (a : Answer) :
    e.Hushed (noteGiven name e a) := by
  unfold noteGiven
  split
  · exact ⟨rfl, (e.unannounced_note rfl).tells⟩
  · exact .refl e

theorem keeps_hushed : Keeps Request.Arranges Stage.Hushed where
  refl := .refl
  trans := .trans
  log e r := ⟨rfl, (e.unannounced_log r).tells⟩
  called := .called
  given := hushed_noteGiven
  serve {emit r} hr _ e := by
    cases r with
    | introduce name l => exact .introduce e name l
    | subscribe event name => exact .subscribe e event name
    | unsubscribe event name => exact .unsubscribe e event name
    | look object => exact .refl e
    | change object f => exact .change e object f
    | _ => exact hr.elim

/-- A request of one who watches a play: nothing is emitted by hand, and the script is left to the
engine. -/
def Request.Attends : Request → Prop
  | .emit _ _ | .replaceScript _ | .advance => False
  | _ => True

end Engine

/-! ## The events of elements -/

open Engine (jumpPayload backgroundPayload)

/-- The events that elements stand for when they are given, the first of them in a script of the
origin. -/
def trace (config : Config) : Option Text → List Element → List Event
  | _, [] => []
  | origin, .directive (.jump path choices) :: rest =>
    let target := (jumpTarget config origin path).toText
    ("engine.load".toList, [("path".toList, .fixed (.str target))]) ::
      ("engine.jump".toList, jumpPayload path choices) :: trace config (some target) rest
  | origin, .directive (.loadBackground path) :: rest =>
    ("engine.bg".toList, backgroundPayload path) :: trace config origin rest
  | origin, _ :: rest => trace config origin rest

theorem trace_of_plain {config : Config} {origin : Option Text} {element : Element}
    (h : element.mark ≠ .directive) (rest : List Element) :
    trace config origin (element :: rest) = trace config origin rest := by
  cases element with
  | directive d => exact absurd rfl h
  | dialogue name body => rfl
  | comment => rfl

/-- Each event is announced once for each element of its kind. -/
theorem countP_trace (config : Config) (origin : Option Text) (elements : List Element) :
    (trace config origin elements).countP (·.1 = "engine.bg".toList) =
        (elements.filterMap Element.background?).length ∧
      (trace config origin elements).countP (·.1 = "engine.load".toList) =
        elements.countP Element.isJump ∧
      (trace config origin elements).countP (·.1 = "engine.jump".toList) =
        elements.countP Element.isJump := by
  fun_induction trace config origin elements with
  | case1 => exact ⟨rfl, rfl, rfl⟩
  | case2 origin path choices rest target ih =>
    obtain ⟨hbg, hload, hjump⟩ := ih
    refine ⟨?_, ?_, ?_⟩
    · rw [List.countP_cons_of_neg (by simp), List.countP_cons_of_neg (by simp), hbg]
      rfl
    · rw [List.countP_cons_of_pos (by simp), List.countP_cons_of_neg (by simp), hload,
        List.countP_cons_of_pos rfl]
    · rw [List.countP_cons_of_neg (by simp), List.countP_cons_of_pos (by simp), hjump,
        List.countP_cons_of_pos rfl]
  | case3 origin path rest ih =>
    obtain ⟨hbg, hload, hjump⟩ := ih
    refine ⟨?_, ?_, ?_⟩
    · rw [List.countP_cons_of_pos (by simp), hbg]
      rfl
    · rw [List.countP_cons_of_neg (by simp), hload, List.countP_cons_of_neg Bool.false_ne_true]
    · rw [List.countP_cons_of_neg (by simp), hjump, List.countP_cons_of_neg Bool.false_ne_true]
  | case4 origin element rest hjump hbackground ih =>
    have hplain : element.background? = none ∧ element.isJump = false := by
      cases element with
      | directive d =>
        cases d with
        | jump path choices => exact absurd rfl (hjump path choices)
        | loadBackground path => exact absurd rfl (hbackground path)
      | _ => exact ⟨rfl, rfl⟩
    rw [List.filterMap_cons_none hplain.1, List.countP_cons_of_neg (by simp [hplain.2])]
    exact ih

/-- The events that the next step of a player announces. -/
def Player.announces (p : Player) : List Event := (p.effect?.map Engine.Effect.events).getD []

/-- A step announces the events of the element that it gives, and the others are for later. -/
theorem Player.trace_step (p : Player) (later : List Engine.Outcome) :
    trace p.config p.cursor.origin (elementsOf (p.step.2 :: later)) =
      p.announces ++ trace p.config p.step.1.cursor.origin (elementsOf later) := by
  cases p.sort with
  | stopped h =>
    have hstops : Engine.Outcome.Stops p.step.2 := by
      rw [step_of_verdict h]
      rcases PlayState.verdict?_eq_some h with ⟨error, -, rfl⟩ | ⟨-, rfl⟩ <;> simp
    rw [Engine.elementsOf_cons_of_stops hstops, announces, effect?_of_verdict h,
      step_of_verdict h]
    rfl
  | failing hs h =>
    rw [step_of_failing hs h, announces, effect?, hs, h, cursor_halted, Cursor.origin_advance]
    rfl
  | ending hs h =>
    rw [step_of_ending hs h, announces, effect?, hs, h, cursor_ended, Cursor.origin_advance]
    rfl
  | plain hs h hm =>
    rw [step_of_plain hs h hm, announces, effect?_of_plain hs h hm, Cursor.origin_advance]
    exact trace_of_plain hm _
  | impossible hs h he =>
    have heffect : p.effect? = none := by simp only [effect?, hs, h, he]; rfl
    rw [step_of_impossible hs h he, announces, heffect]
    rfl
  | @possible d effect hs h he =>
    have heffect : p.effect? = some effect := by simp only [effect?, hs, h, he]; rfl
    rw [step_of_possible hs h he, announces, heffect]
    cases d with
    | loadBackground path =>
      obtain rfl : effect = .background path := (Except.ok.inj he).symm
      exact congrArg _ (congrArg (trace p.config · _) (Cursor.origin_advance _).symm)
    | jump path choices =>
      obtain ⟨text, -, rfl⟩ := Engine.effectOf_jump_eq_ok he
      rfl

namespace Engine

/-! ## Sessions -/

/-- Emissions add nothing to what they announce, as long as only what is allowed is asked. -/
structure Hushes (emit : Stage.Emitter Player) (P : Request → Prop) (I : Engine → Prop) : Prop where
  emission : ∀ e event payload, I e →
    I (emit e event payload) ∧ (e.announced event payload).Hushed (emit e event payload)
  own : ∀ e r, P r → I e → I (serveWith unheard e r).1
  attends : ∀ r, P r → r.Attends

theorem hushes_emitAs {cast : Cast} (hc : cast.Only Request.Arranges) :
    Hushes (emitAs cast) Request.Attends (fun _ => True) where
  emission e event payload _ := ⟨trivial, keeps_hushed.emitAs hc e event payload⟩
  own _ _ _ _ := trivial
  attends _ hr := hr

theorem hushes_emit :
    Hushes Engine.emit (fun r => r.Attends ∧ r.Brings Action.Arranges)
      (·.bus.Only Action.Arranges) where
  emission e event payload he :=
    (Stage.closed_hushed nextWith).emit e event payload (he.of_cast rfl)
  own _ _ hr := only_own_of_brings hr.2
  attends _ hr := hr.1

section

variable {emit : Stage.Emitter Player} {P : Request → Prop} {I : Engine → Prop}

theorem Hushes.announce (h : Hushes emit P I) {e : Engine} (he : I e) (events : List Event) :
    I (announce emit e events) ∧ (announce emit e events).world = e.world ∧
      e.Tells (announce emit e events) events := by
  induction events generalizing e with
  | nil => exact ⟨he, rfl, .refl e⟩
  | cons event rest ih =>
    obtain ⟨hfirst, hhushed⟩ := h.emission e event.1 event.2 he
    obtain ⟨hlast, hworld, htells⟩ := ih hfirst
    have hevent := (e.continues_announced event.1 event.2).tells.trans hhushed.tells
    exact ⟨hlast, hworld.trans hhushed.world, hevent.trans htells⟩

/-- What is served announces its events, and does to the player what the engine does itself. -/
theorem Hushes.serve (h : Hushes emit P I) {e : Engine} (he : I e) {r : Request} (hr : P r) :
    I (serveWith emit e r).1 ∧
      (serveWith emit e r).1.world = (serveWith unheard e r).1.world ∧
      e.Tells (serveWith emit e r).1 (eventsOf e r) := by
  obtain ⟨hinv, hworld, htells⟩ := h.announce (h.own e r hr he) (eventsOf e r)
  rw [serveWith_eq_announce emit]
  exact ⟨hinv, hworld, (unannounced_own e r).tells.trans htells⟩

end

/-- What a session does, told by the elements that it gave. -/
structure Told (e after : Engine) (given : List Element) : Prop where
  tells : e.Tells after (trace e.world.config e.world.cursor.origin given)
  background : after.world.background = (lastBackground given).or e.world.background
  source : after.world.source = given.foldl (leadOn e.world.config e.world.files) e.world.source

/-- The answer does not depend on who hears of what is announced. -/
theorem snd_serveWith (emit : Stage.Emitter Player) (e : Engine) (r : Request) :
    (serveWith emit e r).2 = (serveWith unheard e r).2 := by
  rw [serveWith_eq_announce]

/-- A request for anything but a step announces nothing, gives no step and leaves the play. -/
theorem idle_of_attends {e : Engine} {r : Request} (hr : r.Attends) (hn : r ≠ .next) :
    eventsOf e r = [] ∧ (serveWith unheard e r).2.outcome? = none ∧
      e.world.Still (serveWith unheard e r).1.world := by
  have ht : ¬r.Tampers := by cases r <;> first | exact id | exact fun _ => hr
  refine ⟨?_, ?_, still_own hn ht⟩
  · cases r <;> first | rfl | exact absurd rfl hn | exact hr.elim
  · cases r <;> first | rfl | exact absurd rfl hn

/-- What a session does after its first request is done, told with the step of that request. -/
theorem Hushes.told_cons {emit : Stage.Emitter Player} {P : Request → Prop} {I : Engine → Prop}
    (h : Hushes emit P I) {e after : Engine} (he : I e) {r : Request} (hr : P r)
    {later : List Outcome} (ht : Told (serveWith emit e r).1 after (elementsOf later)) :
    Told e after (elementsOf ((serveWith emit e r).2.outcome?.toList ++ later)) := by
  obtain ⟨-, hworld, htells⟩ := h.serve he hr
  obtain ⟨htells', hbackground, hsource⟩ := ht
  rw [hworld] at htells' hbackground hsource
  rw [snd_serveWith]
  by_cases hn : r = .next
  · subst hn
    obtain ⟨hstep, houtcome⟩ := own_next e
    obtain ⟨hconfig, hfiles, hleaves⟩ := e.world.step_leaves
    have houtcomes : (serveWith unheard e .next).2.outcome?.toList ++ later =
        e.world.step.2 :: later := by
      rw [← houtcome]
      rfl
    rw [houtcomes]
    simp only [serveWith, hstep, hconfig, hfiles] at htells' hbackground hsource
    refine ⟨by rw [Player.trace_step]; exact htells.trans htells', ?_, ?_⟩
    · rw [hbackground]
      obtain ⟨hstops, hback, -⟩ | ⟨element, hgiven, hback, -⟩ := hleaves
      · rw [hback, elementsOf_cons_of_stops hstops]
      · rw [hback, hgiven, elementsOf_cons_element, lastBackground_cons]
    · rw [hsource]
      obtain ⟨hstops, -, hsource'⟩ | ⟨element, hgiven, -, hsource'⟩ := hleaves
      · rw [hsource', elementsOf_cons_of_stops hstops]
      · rw [hsource', hgiven, elementsOf_cons_element, List.foldl_cons]
  · obtain ⟨hevents, hnone, hstill⟩ := idle_of_attends (e := e) (h.attends r hr) hn
    rw [hstill.config, hstill.cursor] at htells'
    rw [hevents] at htells
    rw [hnone]
    refine ⟨htells.trans htells', ?_, ?_⟩
    · rw [hbackground, hstill.background]
      rfl
    · rw [hsource, hstill.config, hstill.files, Player.source, hstill.cursor]
      rfl

/-- A session of one who watches. The induction is on the requests. -/
theorem Hushes.told {cast : Cast} {P : Request → Prop} {I : Engine → Prop}
    (h : Hushes (emitAs cast) P I) {e : Engine} (he : I e) {rs : List Request}
    (hr : ∀ r ∈ rs, P r) :
    I (serveAllAs cast e rs).1 ∧
      Told e (serveAllAs cast e rs).1 (elementsOf (outcomes (serveAllAs cast e rs).2)) := by
  induction rs generalizing e with
  | nil => exact ⟨he, .refl e, (Option.none_or).symm, rfl⟩
  | cons r rest ih =>
    obtain ⟨hinv, -⟩ := h.serve he (hr r (List.mem_cons_self ..))
    obtain ⟨hlast, htold⟩ := ih hinv fun r hmem => hr r (List.mem_cons_of_mem _ hmem)
    have hcons : outcomes (serveAllAs cast e (r :: rest)).2 =
        (serveWith (emitAs cast) e r).2.outcome?.toList ++
          outcomes (serveAllAs cast (serveWith (emitAs cast) e r).1 rest).2 := by
      rw [serveAllAs, outcomes, List.filterMap_cons]
      cases (serveWith (emitAs cast) e r).2.outcome? <;> rfl
    rw [hcons]
    exact ⟨hlast, h.told_cons he (hr r (List.mem_cons_self ..)) htold⟩

/-- An engine that has just been built, for a script or for a file. -/
inductive Built : Engine → Prop
  | start (config : Config) (files : FileSystem) (decoder : Decoder) (cursor : Cursor) :
      Built (start config files decoder cursor)
  | ofFile {config : Config} {files : FileSystem} {decoder : Decoder} {path : Path} {shown : Text}
      {e : Engine} (h : ofFile config files decoder path shown = .ok e) : Built e

theorem Built.unplayed {e : Engine} (h : Built e) :
    e.emissions = [] ∧ (∀ event, e.bus.emitCount event = 0) ∧ e.world.background = none ∧
      ∀ P : Action → Prop, e.bus.Only P := by
  cases h with
  | start config files decoder cursor =>
    exact ⟨rfl, fun _ => rfl, rfl, fun _ => Bus.only_empty⟩
  | @ofFile config files decoder path shown e h =>
    unfold Engine.ofFile at h
    split at h
    · cases h
    · cases h
      exact ⟨rfl, fun _ => rfl, rfl, fun _ => Bus.only_empty⟩

/-- What gives no element announces nothing. -/
theorem eventsOf_of_no_element {e : Engine} {r : Request} (hr : r.Attends)
    (h : ∀ element, (serveWith unheard e r).2 ≠ .stepped (.ok (some element))) :
    eventsOf e r = [] := by
  by_cases hn : r = .next
  · subst hn
    have hstops : Outcome.Stops e.world.step.2 := by
      intro element hgiven
      refine h element ?_
      rw [← hgiven, ← (own_next e).2]
      rfl
    have htrace := e.world.trace_step []
    rw [elementsOf_cons_of_stops hstops] at htrace
    exact (List.append_eq_nil_iff.1 htrace.symm).1
  · exact (idle_of_attends hr hn).1

/-- A script with a background that a jump comes after. -/
def postcard : Engine :=
  start {} shelf (fun _ path => .error (.missingFile path))
    (.ofText "@loadbg(a.png)\n@jump(b.vn)".toList none)

/-- A session to the end of it and on, with a listener that fails and leaves. -/
def evening : List Request :=
  [.introduce "ear".toList
      (.always { actions := [.unsubscribe "engine.jump".toList "ear".toList], fails := true }),
    .subscribe "engine.jump".toList "ear".toList, .next, .peek, .background, .next, .next, .next]

end Engine

end Playscript
