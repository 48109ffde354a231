import Playscript.Proofs.Course

/-!
# Stopping

An engine stops at the first error or at the end, and that is for good. This holds at every moment
of a session, inside the calls of listeners as well: a step that a listener takes may stop the
engine before the step around it is done, and that step leaves it so.

* `verdict?_step`: a player is stopped after a step just when the step says so.
* `Player.Sound.step`, `Player.Follows.sound`: an error is stored just when there is one to report.
* `Player.Follows.state_of_stopped`: a stopped player stays in its state.
* `Player.Follows.exists_step`: a player that has been stopped was stopped by a step.
* `stopped_stays`: all this for sessions.
-/

namespace Playscript

open Engine (Answer serveWith unheard nextWith peek peeked own serveAll serveAllAs
  course nextWith_of_verdict peek_of_verdict state_own_of_stopped own_next phase_own state_own
  follows_course)

/-- What iteration gives for want of an element: the signal to stop, or an error. -/
inductive Halt
  | stop
  | error (e : ScriptError)
  deriving DecidableEq, Repr

/-- What iteration makes of the outcome of a step. -/
def Engine.Outcome.iterated : Engine.Outcome → Except Halt Element
  | .ok (some element) => .ok element
  | .ok none => .error .stop
  | .error e => .error (.error e)

/-- A step of an iteration over the elements. To the engine it is a step like any other. -/
def Engine.iterateWith (emit : Stage.Emitter Player) (e : Engine) :
    Engine × Except Halt Element :=
  ((nextWith emit e).1, Engine.Outcome.iterated (nextWith emit e).2)

/-- The verdict that an outcome stands for, if it is no element. -/
def Engine.Outcome.verdict? : Engine.Outcome → Option Engine.Outcome
  | .ok (some _) => none
  | o => some o

/-! ## Stops and steps -/

theorem Engine.Outcome.eq_of_verdict? {x o : Engine.Outcome}
    (h : Engine.Outcome.verdict? x = some o) : x = o := by
  unfold Engine.Outcome.verdict? at h
  split at h
  · cases h
  · exact Option.some.inj h

theorem PlayState.eq_of_verdict? {s t : PlayState} {o : Engine.Outcome} (hs : s.verdict? = some o)
    (ht : t.verdict? = some o) : s = t := by
  rcases verdict?_eq_some hs with ⟨error, rfl, rfl⟩ | ⟨rfl, rfl⟩
  · rcases verdict?_eq_some ht with ⟨error', rfl, h⟩ | ⟨rfl, h⟩
    · cases h
      rfl
    · cases h
  · rcases verdict?_eq_some ht with ⟨error', rfl, h⟩ | ⟨rfl, -⟩
    · cases h
    · rfl

theorem PlayState.ne_running_of_verdict? {s : PlayState} {o : Engine.Outcome}
    (h : s.verdict? = some o) : s ≠ .running := by
  rintro rfl
  cases h

theorem PlayState.verdict?_verdict {s : PlayState} {o : Engine.Outcome} (h : s.verdict? = some o) :
    Engine.Outcome.verdict? o = some o := by
  rcases verdict?_eq_some h with ⟨error, -, rfl⟩ | ⟨-, rfl⟩ <;> rfl

/-- A player is stopped after a step just when the step says so. -/
theorem Player.verdict?_step (p : Player) :
    p.step.1.state.verdict? = Engine.Outcome.verdict? p.step.2 := by
  cases p.sort with
  | stopped h => rw [step_of_verdict h, h, PlayState.verdict?_verdict h]
  | failing hs h => rw [step_of_failing hs h]; rfl
  | ending hs h => rw [step_of_ending hs h]; rfl
  | plain hs h hm => rw [step_of_plain hs h hm]; exact congrArg PlayState.verdict? hs
  | impossible hs h he => rw [step_of_impossible hs h he]; rfl
  | @possible d effect hs h he =>
    rw [step_of_possible hs h he]
    cases effect <;> exact congrArg PlayState.verdict? hs

/-- A step keeps a player sound: it stores an error when it stops with one, and at no other time. -/
theorem Player.Sound.step {p : Player} (hp : p.Sound) : p.step.1.Sound := by
  cases p.sort with
  | stopped h => rw [step_of_verdict h]; exact hp
  | failing hs h => rw [step_of_failing hs h]; exact sound_halted ..
  | ending hs h => rw [step_of_ending hs h]; exact Sound.ended (p := { p with cursor := _ }) hp hs
  | plain hs h hm => rw [step_of_plain hs h hm]; exact hp
  | impossible hs h he => rw [step_of_impossible hs h he]; exact sound_halted ..
  | @possible d effect hs h he =>
    rw [step_of_possible hs h he]
    cases effect <;> exact hp

namespace Moment

variable {m : Moment}

/-- Whatever is asked of a sound engine, it is sound after that. -/
theorem sound_after (h : m.engine.world.Sound) : m.after.world.Sound := by
  by_cases hn : m.request = .next
  · rw [(of_next hn).1]
    exact h.step
  · obtain ⟨hphase, hstored⟩ := phase_own (e := m.engine) hn
    exact Player.Sound.of_eq h hphase hstored

theorem state_after_of_stopped (h : m.engine.world.state ≠ .running) :
    m.after.world.state = m.engine.world.state :=
  state_own_of_stopped h m.request

/-- A step that stops the engine says so, and one that says so has stopped it. -/
theorem verdict?_after_of_stepped {o : Engine.Outcome} (ha : m.answer = .stepped o) :
    m.after.world.state.verdict? = Engine.Outcome.verdict? o := by
  obtain ⟨hafter, hanswer⟩ := of_next (next_of_stepped ha)
  rw [hafter, Player.verdict?_step, Answer.stepped.inj (hanswer.symm.trans ha)]

/-- Only a step stops an engine. -/
theorem next_of_stops {o : Engine.Outcome} (hs : m.engine.world.state = .running)
    (h : m.after.world.state.verdict? = some o) :
    m.answer = .stepped o := by
  have hnext : m.request = .next := by
    by_contra hn
    have hstate : m.after.world.state = m.engine.world.state := state_own hn
    rw [hstate, hs] at h
    cases h
  have ha := (of_next hnext).2
  have hv := verdict?_after_of_stepped ha
  rw [h] at hv
  rw [ha, Engine.Outcome.eq_of_verdict? hv.symm]

end Moment

/-! ## Stops along a session -/

namespace Player.Follows

variable {P : Engine.Request → Prop} {p q : Player} {ms : List Moment}

/-- Along a session that begins soundly the engine is sound at every moment. -/
theorem sound (h : p.Follows P ms q) (hp : p.Sound) :
    (∀ m ∈ ms, m.engine.world.Sound ∧ m.after.world.Sound) ∧ q.Sound := by
  induction ms generalizing p with
  | nil =>
    obtain rfl : q = p := h
    exact ⟨fun m hm => absurd hm (by simp), hp⟩
  | cons m ms ih =>
    obtain ⟨rfl, -, hrest⟩ := h
    have hafter := m.sound_after hp
    obtain ⟨hall, hlast⟩ := ih hrest hafter
    exact ⟨List.forall_mem_cons.2 ⟨⟨hp, hafter⟩, hall⟩, hlast⟩

/-- A stopped player stays in its state, whatever comes. -/
theorem state_of_stopped (h : p.Follows P ms q) (hs : p.state ≠ .running) :
    (∀ m ∈ ms, m.engine.world.state = p.state) ∧ q.state = p.state := by
  induction ms generalizing p with
  | nil =>
    obtain rfl : q = p := h
    exact ⟨fun m hm => absurd hm (by simp), rfl⟩
  | cons m ms ih =>
    obtain ⟨rfl, -, hrest⟩ := h
    have hafter := m.state_after_of_stopped hs
    obtain ⟨hall, hlast⟩ := ih hrest (by rwa [hafter])
    refine ⟨fun n hn => ?_, hlast.trans hafter⟩
    rcases List.mem_cons.1 hn with rfl | hn
    · rfl
    · exact (hall n hn).trans hafter

/-- What comes after a moment follows from it. -/
theorem of_mem (h : p.Follows P ms q) {m : Moment} (hm : m ∈ ms) :
    ∃ later, m.after.world.Follows P later q := by
  induction ms generalizing p with
  | nil => exact absurd hm (by simp)
  | cons n ms ih =>
    obtain ⟨-, -, hrest⟩ := h
    rcases List.mem_cons.1 hm with rfl | hm
    · exact ⟨ms, hrest⟩
    · exact ih hrest hm

/-- A moment at which the engine is stopped decides on the state at all later moments. -/
theorem pairwise_state (h : p.Follows P ms q) :
    ms.Pairwise fun a b =>
      a.after.world.state ≠ .running → b.engine.world.state = a.after.world.state := by
  induction ms generalizing p with
  | nil => exact List.Pairwise.nil
  | cons m ms ih =>
    obtain ⟨-, -, hrest⟩ := h
    rw [List.pairwise_cons]
    exact ⟨fun b hb hs => (hrest.state_of_stopped hs).1 b hb, ih hrest⟩

/-- A player that has been stopped was stopped by a step. -/
theorem exists_step (h : p.Follows P ms q) {o : Engine.Outcome} (hv : q.state.verdict? = some o) :
    p.state.verdict? = some o ∨ ∃ m ∈ ms, m.answer = .stepped o := by
  induction ms generalizing p with
  | nil =>
    obtain rfl : q = p := h
    exact .inl hv
  | cons m ms ih =>
    obtain ⟨rfl, -, hrest⟩ := h
    rcases ih hrest with hafter | ⟨n, hn, hstep⟩
    · by_cases hs : m.engine.world.state = .running
      · exact .inr ⟨m, List.mem_cons_self .., m.next_of_stops hs hafter⟩
      · rw [m.state_after_of_stopped hs] at hafter
        exact .inl hafter
    · exact .inr ⟨n, List.mem_cons_of_mem _ hn, hstep⟩

/-- A player is in a stopped state at the end just when it was at the start, or a step says so. -/
theorem state_eq_iff (h : p.Follows P ms q) {s : PlayState} {o : Engine.Outcome}
    (hv : s.verdict? = some o) :
    q.state = s ↔ p.state = s ∨ ∃ m ∈ ms, m.answer = .stepped o := by
  have hrunning := PlayState.ne_running_of_verdict? hv
  constructor
  · rintro rfl
    rcases h.exists_step hv with hp | hstep
    · exact .inl (PlayState.eq_of_verdict? hp hv)
    · exact .inr hstep
  · rintro (rfl | ⟨m, hm, ha⟩)
    · exact (h.state_of_stopped hrunning).2
    · have hafter : m.after.world.state.verdict? = some o := by
        rw [m.verdict?_after_of_stepped ha, PlayState.verdict?_verdict hv]
      obtain ⟨later, hlater⟩ := h.of_mem hm
      rw [(hlater.state_of_stopped (PlayState.ne_running_of_verdict? hafter)).2]
      exact PlayState.eq_of_verdict? hafter hv

end Player.Follows

namespace Engine

/-- Whoever asks the engine for an element, by a step, in an iteration or by a peek, is given the
same. Nothing comes of it: the engine is left as it is, with its counts and its journal. -/
structure Rests (e : Engine) (o : Outcome) : Prop where
  next : ∀ emit, nextWith emit e = (e, o)
  iterate : ∀ emit, iterateWith emit e = (e, Outcome.iterated o)
  peek : peek e = o
  peeked : peeked e = e

theorem rests_of_verdict {e : Engine} {o : Outcome} (h : e.world.state.verdict? = some o) :
    Rests e o where
  next _ := nextWith_of_verdict h
  iterate emit := by rw [iterateWith, nextWith_of_verdict h]
  peek := peek_of_verdict h
  peeked := by
    unfold Engine.peeked
    split
    · rename_i hs
      exact absurd hs (PlayState.ne_running_of_verdict? h)
    · rfl

/-- **A stopped engine stays stopped.** An engine starts out sound, and is so at every moment of a
session: an error is stored just when the phase is that of an error. Whoever asks it for an element
then gets this error; where it has come to the end, that is what he hears; and in neither case does
anything come of asking. Whatever a session asks for, and whatever the listeners in it do, the state
of a stopped engine is the same at every later moment, also when a step inside the call of a
listener has stopped it. An engine is stopped by a step alone, and with the outcome of that step. -/
theorem stopped_stays (cast : Cast) (e : Engine) (rs : List Request) :
    let moments := course cast rs e
    let after := (serveAllAs cast e rs).1
    (∀ config files decoder cursor, (start config files decoder cursor).world.Sound) ∧
    (e.world.Sound → (∀ m ∈ moments, m.engine.world.Sound ∧ m.after.world.Sound) ∧
      after.world.Sound) ∧
    (∀ (e : Engine) (error : ScriptError), e.world.Sound → e.world.stored = some error →
      Rests e (.error error)) ∧
    (∀ (e : Engine) (o : Outcome), e.world.state.verdict? = some o → Rests e o) ∧
    (e.world.state ≠ .running →
      (∀ m ∈ moments, m.engine.world.state = e.world.state) ∧
        after.world.state = e.world.state) ∧
    (moments.Pairwise fun a b =>
      a.after.world.state ≠ .running → b.engine.world.state = a.after.world.state) ∧
    (∀ m ∈ moments, m.after.world.state ≠ .running →
      after.world.state = m.after.world.state) ∧
    (∀ (s : PlayState) (o : Outcome), s.verdict? = some o →
      (after.world.state = s ↔
        e.world.state = s ∨ ∃ m ∈ moments, m.answer = .stepped o)) ∧
    serveAllAs own e rs = serveAll e rs := by
  have hfollows := follows_course cast.only_true (fun r (_ : r ∈ rs) => trivial) e
  refine ⟨sound_start, hfollows.sound, ?_, fun _ _ => rests_of_verdict, hfollows.state_of_stopped,
    hfollows.pairwise_state, ?_, fun _ _ => hfollows.state_eq_iff, serveAllAs_own e rs⟩
  · intro f error hf hstored
    apply rests_of_verdict
    rw [(Player.stored_eq_some_iff hf error).1 hstored]
    rfl
  · intro m hm hs
    obtain ⟨later, hlater⟩ := hfollows.of_mem hm
    exact (hlater.state_of_stopped hs).2

/-- A script of one background, which a listener answers with a step that finds the end. -/
def interlude : Engine :=
  let e := start {} FileSystem.nameless (fun _ path => .error (.missingFile path))
    (.ofText "@loadbg(a.png)".toList none)
  (e.introduce "ear".toList (.always { actions := [.next] })).subscribe "engine.bg".toList
    "ear".toList

/-- A step, a fresh script that comes too late, and another step. -/
def encore : List Request := [.next, .replaceScript (.ofText "[A] x".toList none), .next]

/-- The step inside the call of the listener. -/
def innerStep : Moment := (course own encore interlude).get ⟨1, by decide +kernel⟩

theorem stopped_stays_encore :
    (innerStep.after.world.state = .exhausted ∧ innerStep.after.world.state ≠ .running) ∧
      (serveAllAs own interlude encore).1.world.state = innerStep.after.world.state ∧
      Rests (serveAllAs own interlude encore).1 (.ok none) := by
  have hstate : innerStep.after.world.state = .exhausted := by decide +kernel
  have hstopped : innerStep.after.world.state ≠ .running := by rw [hstate]; decide
  obtain ⟨-, -, -, hrests, -, -, hstays, -, -⟩ := stopped_stays own interlude encore
  have hlast := hstays innerStep (List.get_mem _ _) hstopped
  refine ⟨⟨hstate, hstopped⟩, hlast, hrests _ (.ok none) ?_⟩
  rw [hlast, hstate]
  rfl

end Engine

end Playscript
