import Playscript.Proofs.Conduct

/-!
# The course of a session

Everything that is asked of an engine in a session, by its caller and by listeners inside one
another's calls, in the order in which the engine does what it is asked. Between two of these
moments nothing happens to the player. So whatever calls are nested in whatever way, a session does
to the player what the same requests do one after the other.

* `course`: the moments of a session.
* `Player.Follows`: moments that lead from one player to another.
* `follows_course`: the moments of a session lead from its start to its end.
* `Lasting`, `lasts_course`: what nothing in a session takes away holds at each of its moments.
-/

namespace Playscript

open Engine (Answer serveWith unheard eventsOf carryOut noteGiven called callAs
  emitAs serveAllAs announce own_next serveWith_eq_announce)

/-- A request, and the engine when it is about to do what it is asked. -/
structure Moment where
  engine : Engine
  request : Engine.Request

namespace Moment

/-- The engine once it has done that. -/
def after (m : Moment) : Engine := (serveWith unheard m.engine m.request).1

def answer (m : Moment) : Answer := (serveWith unheard m.engine m.request).2

variable {m : Moment}

/-- The answer does not depend on who hears of what is announced. -/
theorem answer_serveWith (emit : Stage.Emitter Player) :
    (serveWith emit m.engine m.request).2 = m.answer := by
  rw [serveWith_eq_announce]
  rfl

theorem of_next (hn : m.request = .next) :
    m.after.world = m.engine.world.step.1 ∧ m.answer = .stepped m.engine.world.step.2 := by
  obtain ⟨hworld, houtcome⟩ := own_next m.engine
  rw [after, answer, hn]
  exact ⟨hworld, congrArg Answer.stepped houtcome⟩

theorem next_of_stepped {o : Engine.Outcome} (h : m.answer = .stepped o) : m.request = .next := by
  rw [answer] at h
  cases hr : m.request with
  | next => rfl
  | _ => rw [hr] at h; cases h

end Moment

namespace Engine

/-! ## Moments -/

/-- The moments of doing something with each member of a list. -/
def chain {α : Type} (act : Engine → α → Engine) (course : Engine → α → List Moment) :
    List α → Engine → List Moment
  | [], _ => []
  | a :: rest, e => course e a ++ chain act course rest (act e a)

/-- The moments of an emission, in terms of those of a call. -/
def emissionCourse (call : Stage.Caller Player) (course : Engine → Text → Payload → List Moment)
    (e : Engine) (event : Text) (payload : Payload) : List Moment :=
  chain (Stage.deliver call event payload) (fun e name => course e name payload)
    (e.bus.listenersOf event) (e.announced event payload)

/-- The moments of serving a request, in terms of those of an emission. What the engine does itself
comes first. -/
def servingCourse (emit : Stage.Emitter Player) (course : Engine → Text → Payload → List Moment)
    (e : Engine) (r : Request) : List Moment :=
  ⟨e, r⟩ :: chain (fun e event => emit e event.1 event.2) (fun e event => course e event.1 event.2)
    (eventsOf e r) (serveWith unheard e r).1

def conductCourse (emit : Stage.Emitter Player) (course : Engine → Text → Payload → List Moment)
    (name : Text) : Conduct → Engine → List Moment
  | .asks r go, e =>
    let served := serveWith emit e r
    servingCourse emit course e r ++
      conductCourse emit course name (go served.2) (noteGiven name served.1 served.2)
  | _, _ => []

def callCourse (cast : Cast) : Nat → Engine → Text → Payload → List Moment
  | 0, _, _, _ => []
  | depth + 1, e, name, payload =>
    conductCourse (Stage.emitWith (callAs cast depth))
      (emissionCourse (callAs cast depth) (callCourse cast depth)) name (cast e name payload)
      (called e name payload)

/-- The moments of an emission that is not part of another. -/
def emitCourse (cast : Cast) (e : Engine) : Text → Payload → List Moment :=
  emissionCourse (callAs cast e.bus.nesting) (callCourse cast e.bus.nesting) e

/-- The moments of a session. -/
def course (cast : Cast) : List Request → Engine → List Moment :=
  chain (fun e r => (serveWith (emitAs cast) e r).1) (servingCourse (emitAs cast) (emitCourse cast))

end Engine

/-! ## From one player to another -/

/-- The moments lead from the player `p` to the player `q`, and nothing but what is allowed is
asked. -/
def Player.Follows (P : Engine.Request → Prop) (p : Player) : List Moment → Player → Prop
  | [], q => q = p
  | m :: ms, q => m.engine.world = p ∧ P m.request ∧ Follows P m.after.world ms q

theorem Player.Follows.append {P : Engine.Request → Prop} {p q r : Player} {ms ns : List Moment}
    (h : p.Follows P ms q) (h' : q.Follows P ns r) : p.Follows P (ms ++ ns) r := by
  induction ms generalizing p with
  | nil =>
    obtain rfl : q = p := h
    exact h'
  | cons m ms ih => exact ⟨h.1, h.2.1, ih h.2.2⟩

namespace Engine

variable {P : Request → Prop} {cast : Cast}

/-- The moments of emissions, or of calls, lead from where each starts to where it ends. -/
def Leads (P : Request → Prop) (course : Engine → Text → Payload → List Moment)
    (act : Engine → Text → Payload → Engine) : Prop :=
  ∀ (e : Engine) text payload, e.world.Follows P (course e text payload) (act e text payload).world

/-- Moments that lead on at each member of a list lead on along the list. -/
theorem follows_chain {α : Type} {act : Engine → α → Engine} {course : Engine → α → List Moment}
    {as : List α}
    (h : ∀ (e : Engine), ∀ a ∈ as, e.world.Follows P (course e a) (act e a).world) (e : Engine) :
    e.world.Follows P (chain act course as e) (as.foldl act e).world := by
  induction as generalizing e with
  | nil => rfl
  | cons a rest ih =>
    have hfirst := h e a (List.mem_cons_self ..)
    exact hfirst.append (ih (fun e a ha => h e a (List.mem_cons_of_mem _ ha)) (act e a))

theorem leads_emission {call : Stage.Caller Player}
    {course : Engine → Text → Payload → List Moment}
    (h : Leads P course fun e name payload => (call e name payload).1) :
    Leads P (emissionCourse call course) (Stage.emitWith call) := by
  intro e event payload
  refine follows_chain (fun e name _ => ?_) (e.announced event payload)
  rw [Stage.deliver]
  split
  · exact h e name payload
  · exact h e name payload

section
variable {emit : Stage.Emitter Player} {course : Engine → Text → Payload → List Moment}

theorem follows_serving (h : Leads P course emit) (e : Engine) {r : Request} (hr : P r) :
    e.world.Follows P (servingCourse emit course e r) (serveWith emit e r).1.world := by
  rw [serveWith_eq_announce]
  exact ⟨rfl, hr, follows_chain (fun e event _ => h e event.1 event.2) _⟩

theorem world_noteGiven (name : Text) (e : Engine) (a : Answer) :
    (noteGiven name e a).world = e.world := by
  unfold noteGiven
  split <;> rfl

theorem follows_conduct (h : Leads P course emit) (name : Text) {conduct : Conduct}
    (hP : conduct.Only P) (e : Engine) :
    e.world.Follows P (conductCourse emit course name conduct e)
      (carryOut emit name conduct e).1.world := by
  induction conduct generalizing e with
  | returns => rfl
  | fails => rfl
  | asks r go ih =>
    have hserve := follows_serving h e hP.1
    refine hserve.append ?_
    rw [← world_noteGiven name]
    exact ih _ (hP.2 _) _

end

/-- The moments of a call lead from its start to its end. The induction is on how deeply calls may
still be nested. -/
theorem leads_call (hc : cast.Only P) (depth : Nat) :
    Leads P (callCourse cast depth) fun e name payload => (callAs cast depth e name payload).1 := by
  induction depth with
  | zero => exact fun _ _ _ => rfl
  | succ depth ih =>
    intro e name payload
    exact follows_conduct (leads_emission ih) name (hc e name payload) (called e name payload)

theorem fst_serveAllAs (cast : Cast) (e : Engine) (rs : List Request) :
    (serveAllAs cast e rs).1 = rs.foldl (fun e r => (serveWith (emitAs cast) e r).1) e := by
  induction rs generalizing e with
  | nil => rfl
  | cons r rest ih => exact ih _

/-- The moments of a session lead from its start to its end. -/
theorem follows_course (hc : cast.Only P) {rs : List Request} (hr : ∀ r ∈ rs, P r) (e : Engine) :
    e.world.Follows P (course cast rs e) (serveAllAs cast e rs).1.world := by
  have hemit : Leads P (emitCourse cast) (emitAs cast) :=
    fun e event payload => leads_emission (leads_call hc e.bus.nesting) e event payload
  rw [fst_serveAllAs]
  exact follows_chain (fun e r hmem => follows_serving hemit e (hr r hmem)) e

end Engine

theorem Player.Follows.allowed {P : Engine.Request → Prop} {p q : Player} {ms : List Moment}
    (h : p.Follows P ms q) : ∀ m ∈ ms, P m.request := by
  induction ms generalizing p with
  | nil => exact fun _ hm => absurd hm List.not_mem_nil
  | cons m ms ih => exact List.forall_mem_cons.2 ⟨h.2.1, ih h.2.2⟩

/-! ## What lasts -/

/-- A property of engines that no part of a call takes away, as long as only what is allowed is
asked for. -/
structure Lasting (P : Engine.Request → Prop) (I : Engine → Prop) : Prop where
  log {e : Engine} (r : Record) : I e → I (e.log r)
  called {e : Engine} (name : Text) (payload : Payload) : I e → I (called e name payload)
  given {e : Engine} (name : Text) (a : Answer) : I e → I (noteGiven name e a)
  announced {e : Engine} (event : Text) (payload : Payload) : I e → I (e.announced event payload)
  own {e : Engine} {r : Engine.Request} : P r → I e → I (serveWith unheard e r).1

namespace Engine

variable {P : Request → Prop} {I : Engine → Prop} {cast : Cast}

/-- The property lasts at all these moments, and to their end. -/
def Lasts (I : Engine → Prop) (course : Engine → Text → Payload → List Moment)
    (act : Engine → Text → Payload → Engine) : Prop :=
  ∀ e text payload, I e → I (act e text payload) ∧ ∀ m ∈ course e text payload, I m.engine

theorem lasts_chain {α : Type} {act : Engine → α → Engine} {course : Engine → α → List Moment}
    {as : List α}
    (h : ∀ e, ∀ a ∈ as, I e → I (act e a) ∧ ∀ m ∈ course e a, I m.engine) {e : Engine}
    (he : I e) : I (as.foldl act e) ∧ ∀ m ∈ chain act course as e, I m.engine := by
  induction as generalizing e with
  | nil => exact ⟨he, fun _ hm => absurd hm List.not_mem_nil⟩
  | cons a rest ih =>
    obtain ⟨hafter, hmoments⟩ := h e a (List.mem_cons_self ..) he
    obtain ⟨hend, hlater⟩ := ih (fun e a ha => h e a (List.mem_cons_of_mem _ ha)) hafter
    exact ⟨hend, fun m hm => (List.mem_append.1 hm).elim (hmoments m) (hlater m)⟩

theorem lasts_emission (hI : Lasting P I) {call : Stage.Caller Player}
    {course : Engine → Text → Payload → List Moment}
    (h : Lasts I course fun e name payload => (call e name payload).1) :
    Lasts I (emissionCourse call course) (Stage.emitWith call) := by
  intro e event payload he
  refine lasts_chain (fun e name _ he => ?_) (hI.announced event payload he)
  obtain ⟨hafter, hmoments⟩ := h e name payload he
  refine ⟨?_, hmoments⟩
  rw [Stage.deliver]
  split
  · exact hafter
  · exact hI.log _ hafter

section
variable {emit : Stage.Emitter Player} {course : Engine → Text → Payload → List Moment}

theorem lasts_serving (hI : Lasting P I) (h : Lasts I course emit) {e : Engine} {r : Request}
    (hr : P r) (he : I e) :
    I (serveWith emit e r).1 ∧ ∀ m ∈ servingCourse emit course e r, I m.engine := by
  rw [serveWith_eq_announce]
  obtain ⟨hend, hmoments⟩ :=
    lasts_chain (fun f event (_ : event ∈ eventsOf e r) => h f event.1 event.2) (hI.own hr he)
  exact ⟨hend, List.forall_mem_cons.2 ⟨he, hmoments⟩⟩

theorem lasts_conduct (hI : Lasting P I) (h : Lasts I course emit) (name : Text)
    {conduct : Conduct} (hP : conduct.Only P) {e : Engine} (he : I e) :
    I (carryOut emit name conduct e).1 ∧ ∀ m ∈ conductCourse emit course name conduct e,
      I m.engine := by
  induction conduct generalizing e with
  | returns => exact ⟨he, fun _ hm => absurd hm List.not_mem_nil⟩
  | fails => exact ⟨he, fun _ hm => absurd hm List.not_mem_nil⟩
  | asks r go ih =>
    obtain ⟨hserved, hmoments⟩ := lasts_serving hI h hP.1 he
    obtain ⟨hend, hlater⟩ := ih _ (hP.2 _) (hI.given name (serveWith emit e r).2 hserved)
    exact ⟨hend, fun m hm => (List.mem_append.1 hm).elim (hmoments m) (hlater m)⟩

end

/-- The induction is on how deeply calls may still be nested. -/
theorem lasts_call (hI : Lasting P I) (hc : cast.Only P) (depth : Nat) :
    Lasts I (callCourse cast depth) fun e name payload => (callAs cast depth e name payload).1 := by
  induction depth with
  | zero => exact fun _ _ _ he => ⟨he, fun _ hm => absurd hm List.not_mem_nil⟩
  | succ depth ih =>
    intro e name payload he
    exact lasts_conduct hI (lasts_emission hI ih) name (hc e name payload)
      (hI.called name payload he)

/-- What lasts holds whenever anything is asked, after that, and in the end. -/
theorem lasts_course (hI : Lasting P I) (hc : cast.Only P) {rs : List Request}
    (hr : ∀ r ∈ rs, P r) {e : Engine} (he : I e) :
    I (serveAllAs cast e rs).1 ∧ ∀ m ∈ course cast rs e, I m.engine ∧ I m.after := by
  have hemit : Lasts I (emitCourse cast) (emitAs cast) :=
    fun e event payload => lasts_emission hI (lasts_call hI hc e.bus.nesting) e event payload
  obtain ⟨hend, hmoments⟩ := lasts_chain
    (fun e r hmem he => lasts_serving hI hemit (hr r hmem) he) he
  have hallowed := (follows_course hc hr e).allowed
  rw [fst_serveAllAs]
  exact ⟨hend, fun m hm => ⟨hmoments m hm, hI.own (hallowed m hm) (hmoments m hm)⟩⟩

end Engine

end Playscript
