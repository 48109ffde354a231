import Playscript.Proofs.Runs
import Playscript.Proofs.Conduct
import Playscript.Proofs.CacheHistory

/-!
# Onlookers

What one sees of an engine from outside: the answers to what is asked of it, and after each of them
the engine's own account of itself, where its cursor stands, the calls of its decoder and the
numbers of its caches. All of it is the doing of the engine and its player. Whoever listens, and
whatever is done when an event is heard, short of calling the engine, none of it is different.

* `viewsWith`: what one sees in the course of a session.
* `own_alone`: what the engine does itself depends on its player alone.
* `viewsWith_eq`: what one sees is what a player without listeners shows.
* `kept_emit`, `kept_emitAs`: listeners that do not call the engine leave no trace.
* `views_whoever_listens`: two sessions with different listeners show the same.
-/

namespace Playscript

/-! ## Calls of the decoder -/

def Happening.decoding? : Happening → Option Text
  | .decoded path => some path
  | _ => none

namespace Stage

variable {α : Type}

/-- The paths that the decoder was called with, in order. -/
def decodings (s : Stage α) : List Text := s.journal.filterMap Happening.decoding?

theorem decodings_note (s : Stage α) (h : Happening) :
    (s.note h).decodings = s.decodings ++ h.decoding?.toList := by
  rw [decodings, journal_note, List.filterMap_append]
  cases h <;> rfl

@[simp] theorem decodings_log (s : Stage α) (r : Record) : (s.log r).decodings = s.decodings := by
  rw [log, decodings_note]
  exact List.append_nil _

@[simp] theorem decodings_logAll (s : Stage α) (records : List Record) :
    (s.logAll records).decodings = s.decodings := by
  induction records generalizing s with
  | nil => rfl
  | cons r rest ih => exact (ih (s.log r)).trans (s.decodings_log r)

@[simp] theorem decodings_onWorld (s : Stage α) (f : α → α) :
    (s.onWorld f).decodings = s.decodings := rfl

/-- The world is the same, and the decoder has not been called in between. -/
structure Kept (s t : Stage α) : Prop where
  world : t.world = s.world
  decodings : t.decodings = s.decodings

theorem Kept.refl (s : Stage α) : s.Kept s := ⟨rfl, rfl⟩

theorem Kept.trans {s t u : Stage α} (h : s.Kept t) (h' : t.Kept u) : s.Kept u :=
  ⟨h'.world.trans h.world, h'.decodings.trans h.decodings⟩

theorem kept_note (s : Stage α) {h : Happening} (hd : h.decoding? = none) : s.Kept (s.note h) := by
  refine ⟨rfl, ?_⟩
  rw [decodings_note, hd, Option.toList_none, List.append_nil]

theorem kept_onBus (s : Stage α) (f : Bus → Bus) : s.Kept (s.onBus f) := ⟨rfl, rfl⟩

theorem kept_onObjects (s : Stage α) (f : Objects → Objects) : s.Kept (s.onObjects f) := ⟨rfl, rfl⟩

theorem kept_announced (s : Stage α) (event : Text) (payload : Payload) :
    s.Kept (s.announced event payload) :=
  (s.kept_onBus _).trans (kept_note _ rfl)

theorem kept_called (s : Stage α) (name : Text) (payload : Payload) :
    s.Kept ((s.onBus Bus.countCall).note (.called name payload)) :=
  (s.kept_onBus _).trans (kept_note _ rfl)

theorem kept_introduce (s : Stage α) (name : Text) (l : Listener) : s.Kept (s.introduce name l) :=
  ⟨rfl, rfl⟩

theorem kept_subscribe (s : Stage α) (event name : Text) : s.Kept (s.subscribe event name) :=
  (s.kept_onBus _).trans (kept_note _ rfl)

theorem kept_unsubscribe (s : Stage α) (event name : Text) : s.Kept (s.unsubscribe event name) :=
  (s.kept_onBus _).trans (kept_note _ rfl)

theorem kept_change (s : Stage α) (object : Nat) (f : Option Contents → Contents) :
    s.Kept (s.change object f) :=
  (s.kept_onObjects _).trans (kept_note _ rfl)

/-- Without calls of the engine nothing happens to the world, and nothing is decoded. -/
theorem closed_kept (stepWith : Emitter α → Stepper α) : Closed (· ≠ .next) stepWith Kept where
  refl := .refl
  trans := .trans
  log s _ := s.kept_note rfl
  called := kept_called
  subscribe s event name _ := (s.kept_introduce name _).trans (kept_subscribe _ event name)
  unsubscribe s event name _ := (s.kept_introduce name _).trans (kept_unsubscribe _ event name)
  announced s event payload _ := s.kept_announced event payload
  change s object f _ := s.kept_change object f
  stepped s _ _ _ := s.kept_note rfl
  step h := absurd rfl h

/-- An emission that quiet listeners hear leaves no trace, and them quiet. -/
theorem kept_emit (stepWith : Emitter α → Stepper α) {s : Stage α} (h : s.bus.Quiet)
    (event : Text) (payload : Payload) :
    (emit stepWith s event payload).bus.Quiet ∧ s.Kept (emit stepWith s event payload) := by
  obtain ⟨hquiet, hkept⟩ := (closed_kept stepWith).emit s event payload (h.of_cast rfl)
  exact ⟨hquiet, (s.kept_announced event payload).trans hkept⟩

end Stage

namespace Engine

/-! ## Requests that have to do with listeners -/

/-- A request that is about listeners, events and the objects in them, and not about playing. -/
def Request.isSocial : Request → Bool
  | .introduce _ _ | .subscribe _ _ | .unsubscribe _ _ | .emit _ _ | .look _ | .change _ _ => true
  | _ => false

/-- A request that brings in no listener that would call the engine. -/
def Request.Discreet : Request → Prop
  | .introduce _ l => l.Quiet
  | _ => True

theorem kept_social (emit : Stage.Emitter Player)
    (hemit : ∀ e event payload, Stage.Kept e (emit e event payload)) (e : Engine) {r : Request}
    (hr : r.isSocial = true) : Stage.Kept e (serveWith emit e r).1 := by
  cases r with
  | introduce name l => exact e.kept_introduce name l
  | subscribe event name => exact e.kept_subscribe event name
  | unsubscribe event name => exact e.kept_unsubscribe event name
  | emit event payload => exact hemit e event payload
  | look object => exact .refl e
  | change object f => exact e.kept_change object f
  | _ => cases hr

theorem kept_noteGiven (name : Text) (e : Engine) (a : Answer) :
    Stage.Kept e (noteGiven name e a) := by
  unfold noteGiven
  split
  · exact e.kept_note rfl
  · exact .refl e

/-- Nothing that has to do with listeners alone leaves a trace. -/
theorem keeps_kept : Keeps (·.isSocial = true) Stage.Kept where
  refl := .refl
  trans := .trans
  log e _ := e.kept_note rfl
  called := Stage.kept_called
  given e name a := kept_noteGiven name e a
  serve hr hemit e := kept_social _ (fun e event payload =>
    (e.kept_announced event payload).trans (hemit e event payload)) e hr

/-- Listeners that ask only for what has to do with listeners leave no trace. -/
theorem kept_emitAs {cast : Cast} (hc : cast.Only (·.isSocial = true)) (e : Engine) (event : Text)
    (payload : Payload) : Stage.Kept e (emitAs cast e event payload) :=
  (e.kept_announced event payload).trans (keeps_kept.emitAs hc e event payload)

/-! ## What the engine does itself -/

theorem decodings_noteLoad (e : Engine) (load : Load) (path : Text) :
    (noteLoad e load path).decodings = e.decodings ++ load.decoded := by
  have hasked (e : Engine) : ∀ paths : List Text,
      (paths.foldl (fun (e : Engine) resolved => e.note (.decoded resolved)) e).decodings
        = e.decodings ++ paths := by
    intro paths
    induction paths generalizing e with
    | nil => exact (List.append_nil _).symm
    | cons path rest ih =>
      rw [List.foldl_cons, ih, Stage.decodings_note, List.append_assoc]
      rfl
  unfold noteLoad
  simp only
  split
  · rw [Stage.decodings_log]
    exact hasked e load.decoded
  · exact hasked e load.decoded

theorem decodings_moved (e : Engine) : (moved e).decodings = e.decodings := by
  simp [moved]

theorem decodings_own_next (e : Engine) :
    (nextWith unheard e).1.decodings = e.decodings := by
  have hmoved := decodings_moved e
  cases e.world.sort with
  | stopped h => rw [nextWith_of_verdict h]
  | failing hs h => simp [nextWith_of_error hs h, fail, hmoved]
  | ending hs h => simp [nextWith_of_end hs h, hmoved]
  | plain hs h hm =>
    rw [nextWith_of_plain hs h hm]
    exact (Stage.kept_note _ rfl).decodings.trans hmoved
  | impossible hs h he => simp [nextWith_of_unreadable hs h he, fail, rewind, hmoved]
  | @possible d effect hs h he =>
    rw [nextWith_of_effect hs h he]
    have hnoted : ((moved e).note (.taken (.directive d))).decodings = e.decodings :=
      (Stage.kept_note _ rfl).decodings.trans hmoved
    cases effect <;> simp [applyWith, replaceScriptWith, unheard, hnoted]

theorem decodings_peeked (e : Engine) : (peeked e).decodings = e.decodings := by
  unfold peeked
  split
  · exact Stage.decodings_logAll ..
  · rfl

/-- An engine that nobody listens to, at the start of its journal. -/
def alone (p : Player) : Engine := { world := p }

/-- What the engine does itself depends on its player alone. -/
theorem own_alone (e : Engine) {r : Request} (hr : r.isSocial = false) :
    (serveWith unheard e r).1.world = (serveWith unheard (alone e.world) r).1.world ∧
      (serveWith unheard e r).2 = (serveWith unheard (alone e.world) r).2 ∧
      (serveWith unheard e r).1.decodings =
        e.decodings ++ (serveWith unheard (alone e.world) r).1.decodings := by
  have hnil (e : Engine) : e.decodings = e.decodings ++ (alone e.world).decodings :=
    (List.append_nil _).symm
  cases r with
  | next =>
    obtain ⟨hworld, houtcome⟩ := own_next e
    obtain ⟨hworld', houtcome'⟩ := own_next (alone e.world)
    refine ⟨hworld.trans hworld'.symm, ?_, ?_⟩
    · exact congrArg Answer.stepped (houtcome.trans houtcome'.symm)
    · simp only [serveWith, decodings_own_next]
      exact hnil e
  | peek =>
    refine ⟨(peeked_eq e).1.trans (peeked_eq (alone e.world)).1.symm, rfl, ?_⟩
    simp only [serveWith, serve, decodings_peeked]
    exact hnil e
  | background =>
    simp only [serveWith, serve, backgroundImage, alone]
    cases e.world.background with
    | none => exact ⟨rfl, rfl, hnil e⟩
    | some path =>
      simp only [(noteLoad_eq _ _ _).1, decodings_noteLoad]
      exact ⟨rfl, trivial, rfl⟩
  | portrait s =>
    simp only [serveWith, serve, spriteImage, alone, (noteLoad_eq _ _ _).1, decodings_noteLoad]
    exact ⟨rfl, trivial, rfl⟩
  | snapshot => exact ⟨rfl, rfl, hnil e⟩
  | addSprite s => exact ⟨rfl, rfl, hnil e⟩
  | replaceScript c => exact ⟨rfl, rfl, hnil e⟩
  | advance =>
    refine ⟨by simp [serveWith, serve, alone], rfl, ?_⟩
    simp only [serveWith, serve, decodings_moved]
    exact hnil e
  | _ => cases hr

/-! ## What one sees -/

/-- What one sees of an engine when it has answered. -/
structure View where
  answer : Answer
  snapshot : Snapshot
  offset : Nat
  failed : Bool
  decodings : List Text
  backgrounds : ImageCache.Stats
  portraits : ImageCache.Stats

def view (e : Engine) (a : Answer) : View where
  answer := a
  snapshot := Engine.snapshot e
  offset := e.world.cursor.offset
  failed := e.world.cursor.failed
  decodings := e.decodings
  backgrounds := e.world.backgrounds.stats
  portraits := e.world.portraits.stats

theorem view_congr {e f : Engine} (hw : e.world = f.world) (hd : e.decodings = f.decodings)
    (a : Answer) : view e a = view f a := by
  simp only [view, Engine.snapshot, hw, hd]

/-- What one sees in the course of a session: a view after each request that is about playing. -/
def viewsWith (emit : Stage.Emitter Player) : Engine → List Request → List View
  | _, [] => []
  | e, r :: rest =>
    let served := serveWith emit e r
    let later := viewsWith emit served.1 rest
    if r.isSocial then later else view served.1 served.2 :: later

/-- As long as only what is allowed is asked, emissions leave no trace, and what they rely on for
that stays so. -/
structure Aloof (emit : Stage.Emitter Player) (P : Request → Prop) (I : Engine → Prop) : Prop where
  emission : ∀ e event payload, I e → I (emit e event payload) ∧ Stage.Kept e (emit e event payload)
  own : ∀ e r, P r → I e → I (serveWith unheard e r).1

section
variable {emit : Stage.Emitter Player} {P : Request → Prop} {I : Engine → Prop}

theorem Aloof.announce (h : Aloof emit P I) {e : Engine} (he : I e) (events : List Event) :
    I (announce emit e events) ∧ Stage.Kept e (announce emit e events) := by
  induction events generalizing e with
  | nil => exact ⟨he, .refl e⟩
  | cons event rest ih =>
    obtain ⟨hfirst, hkept⟩ := h.emission e event.1 event.2 he
    obtain ⟨hlast, hrest⟩ := ih hfirst
    exact ⟨hlast, hkept.trans hrest⟩

/-- What is served leaves the traces of what the engine does itself. -/
theorem Aloof.serve (h : Aloof emit P I) {e : Engine} (he : I e) {r : Request} (hr : P r) :
    I (serveWith emit e r).1 ∧ Stage.Kept (serveWith unheard e r).1 (serveWith emit e r).1 ∧
      (serveWith emit e r).2 = (serveWith unheard e r).2 := by
  obtain ⟨hinv, hkept⟩ := h.announce (h.own e r hr he) (eventsOf e r)
  rw [serveWith_eq_announce emit]
  exact ⟨hinv, hkept, rfl⟩

/-- What one sees before listeners that leave no trace is what an engine without listeners shows
that is asked for the same. -/
theorem viewsWith_eq (h : Aloof emit P I) {e f : Engine} (he : I e) (hw : e.world = f.world)
    (hd : e.decodings = f.decodings) {rs : List Request} (hr : ∀ r ∈ rs, P r) :
    viewsWith emit e rs = viewsWith unheard f (rs.filter (!·.isSocial)) := by
  induction rs generalizing e f with
  | nil => rfl
  | cons r rest ih =>
    obtain ⟨hnext, hkept, hanswer⟩ := h.serve he (hr r (List.mem_cons_self ..))
    have hrest : ∀ r ∈ rest, P r := fun r hmem => hr r (List.mem_cons_of_mem _ hmem)
    cases hs : r.isSocial with
    | true =>
      have hsame := (kept_social unheard (fun e _ _ => .refl e) e hs).trans hkept
      rw [List.filter_cons_of_neg (by simp [hs]), viewsWith, if_pos hs]
      exact ih hnext (hsame.world.trans hw) (hsame.decodings.trans hd) hrest
    | false =>
      obtain ⟨hworld, hgives, hdecodings⟩ := own_alone e hs
      obtain ⟨hworld', hgives', hdecodings'⟩ := own_alone f hs
      rw [hw] at hworld hgives hdecodings
      have hw' : (serveWith emit e r).1.world = (serveWith unheard f r).1.world :=
        hkept.world.trans (hworld.trans hworld'.symm)
      have hd' : (serveWith emit e r).1.decodings = (serveWith unheard f r).1.decodings := by
        rw [hkept.decodings, hdecodings, hdecodings', hd]
      have ha : (serveWith emit e r).2 = (serveWith unheard f r).2 :=
        hanswer.trans (hgives.trans hgives'.symm)
      rw [List.filter_cons_of_pos (by simp [hs]), viewsWith, viewsWith, if_neg (by simp [hs]),
        if_neg (by simp [hs]), ha, view_congr hw' hd', ih hnext hw' hd' hrest]

end

theorem aloof_emitAs {cast : Cast} (hc : cast.Only (·.isSocial = true)) :
    Aloof (emitAs cast) (fun _ => True) (fun _ => True) where
  emission e event payload _ := ⟨trivial, kept_emitAs hc e event payload⟩
  own _ _ _ _ := trivial

theorem aloof_emit : Aloof Engine.emit Request.Discreet (·.bus.Quiet) where
  emission _ event payload h := Stage.kept_emit nextWith h event payload
  own e r hr he := only_own_of_brings (by cases r <;> exact hr) he

/-- **Listeners are not seen.** Two engines with the same player are asked for the same; between
that, listeners come and go and events are emitted in whatever way. The listeners of either may
fail, change their payloads and the objects in them, emit events and put listeners on and off lists,
whether they decide on that as they go or the bus knows it beforehand, but do not call the engine.
Then one sees the same of both after every request. -/
theorem views_whoever_listens {e f : Engine} {rs ss : List Request} (hw : e.world = f.world)
    (hd : e.decodings = f.decodings)
    (hsame : rs.filter (!·.isSocial) = ss.filter (!·.isSocial)) :
    (∀ cast cast' : Cast, cast.Only (·.isSocial = true) → cast'.Only (·.isSocial = true) →
      viewsWith (emitAs cast) e rs = viewsWith (emitAs cast') f ss) ∧
    (e.bus.Quiet → f.bus.Quiet → (∀ r ∈ rs, r.Discreet) → (∀ r ∈ ss, r.Discreet) →
      viewsWith Engine.emit e rs = viewsWith Engine.emit f ss) := by
  constructor
  · intro cast cast' hc hc'
    rw [viewsWith_eq (aloof_emitAs hc) trivial hw hd fun _ _ => trivial,
      viewsWith_eq (aloof_emitAs hc') trivial rfl rfl fun _ _ => trivial, hsame]
  · intro he hf hrs hss
    rw [viewsWith_eq aloof_emit he hw hd hrs, viewsWith_eq aloof_emit hf rfl rfl hss, hsame]

/-- What the session of `visit` asks for, without its listener. -/
def calm : List Request := [.next, .peek, .next, .background, .next, .snapshot, .next, .next]

/-- A cast whose listeners answer every call with an event of their own, take themselves off the
list of jumps, and fail. -/
def fussy : Cast := fun _ name payload =>
  .asks (.emit "echo".toList payload) fun _ =>
    .asks (.unsubscribe "engine.jump".toList name) fun _ => .fails

theorem fussy_only : fussy.Only (·.isSocial = true) := fun _ _ _ =>
  ⟨rfl, fun _ => ⟨rfl, fun _ => trivial⟩⟩

def silent : Cast := fun _ _ _ => .returns

theorem discreet_visit : ∀ r ∈ visit, r.Discreet := by
  intro r hr
  rcases visit_idle r hr with rfl | hidle
  · trivial
  · cases r with
    | introduce name l => exact hidle
    | _ => trivial

theorem views_whoever_listens_visit :
    (visit.filter (!·.isSocial) = calm.filter (!·.isSocial) ∧ fussy.Only (·.isSocial = true) ∧
        silent.Only (·.isSocial = true) ∧ reader.bus.Quiet ∧ (∀ r ∈ visit, r.Discreet) ∧
        ∀ r ∈ calm, r.Discreet) ∧
      viewsWith (emitAs fussy) reader visit = viewsWith (emitAs silent) reader calm ∧
      viewsWith Engine.emit reader visit = viewsWith Engine.emit reader calm := by
  have hsame : visit.filter (!·.isSocial) = calm.filter (!·.isSocial) := rfl
  have hsilent : silent.Only (·.isSocial = true) := fun _ _ _ => trivial
  have hquiet : reader.bus.Quiet := Bus.only_empty
  have hcalm : ∀ r ∈ calm, r.Discreet := by
    intro r hr
    simp only [calm, List.mem_cons, List.not_mem_nil, or_false] at hr
    rcases hr with rfl | rfl | rfl | rfl | rfl | rfl | rfl | rfl <;> trivial
  obtain ⟨hcasts, hbuses⟩ := views_whoever_listens (e := reader) rfl rfl hsame
  exact ⟨⟨hsame, fussy_only, hsilent, hquiet, discreet_visit, hcalm⟩,
    hcasts fussy silent fussy_only hsilent, hbuses hquiet hquiet discreet_visit hcalm⟩

end Engine

end Playscript
