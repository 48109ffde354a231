import Playscript.Proofs.Stopping
import Playscript.Proofs.Runs
import Playscript.Proofs.Peeking

/-!
# Reentrance

A listener may step the engine from inside its call, and the events of that step may have other
listeners step it in turn. Taken in the order in which the engine does them, all these steps are one
run: the one that an engine would have had that nobody listens to.

* `Player.Follows.run`: the steps among moments are a run.
* `Player.Faces`: an error that a listener was given is still there for the caller.
* `reentrant_steps`: the steps of a session, outer and inner ones alike.
* `nested_peek_leaves_running`: the error of a peek does not stop the engine, also inside a call.
-/

namespace Playscript

open Engine (Answer serveWith nextWith peek peeked_eq elementsOf)

/-- What the steps among moments gave, in the order in which the engine took them. -/
def stepsOf (ms : List Moment) : List Engine.Outcome := Engine.outcomes (ms.map Moment.answer)

theorem Engine.Answer.eq_of_outcome? {a : Answer} {o : Engine.Outcome} (h : a.outcome? = some o) :
    a = .stepped o := by
  cases a with
  | stepped _ => exact congrArg Answer.stepped (Option.some.inj h)
  | _ => cases h

/-- The answer to a peek, if it is one. -/
def Engine.Answer.foretold? : Answer → Option Engine.Outcome
  | .foretold outcome => some outcome
  | _ => none

theorem stepsOf_cons_of_stepped {m : Moment} {o : Engine.Outcome} (h : m.answer = .stepped o)
    (ms : List Moment) : stepsOf (m :: ms) = o :: stepsOf ms := by
  simp [stepsOf, Engine.outcomes, h, Answer.outcome?]

theorem stepsOf_cons_of_ne {m : Moment} (hn : m.request ≠ .next) (ms : List Moment) :
    stepsOf (m :: ms) = stepsOf ms := by
  have hanswer : m.answer.outcome? = none := by
    rw [Option.eq_none_iff_forall_ne_some]
    exact fun o ho => hn (Moment.next_of_stepped (Answer.eq_of_outcome? ho))
  simp only [stepsOf, Engine.outcomes, List.map_cons, List.filterMap_cons_none hanswer]

/-- A request that neither steps nor tampers leaves the play alone and gives no step. -/
theorem Moment.of_plain {m : Moment} (hn : m.request ≠ .next) (ht : ¬m.request.Tampers) :
    m.engine.world.Still m.after.world ∧ ∀ ms, stepsOf (m :: ms) = stepsOf ms :=
  ⟨Engine.still_own hn ht, stepsOf_cons_of_ne hn⟩

/-- A peek leaves the player as it is, whatever it foretells. -/
theorem Moment.world_after_peek {m : Moment} (h : m.request = .peek) :
    m.after.world = m.engine.world := by
  rw [after, h]
  exact (peeked_eq m.engine).1

namespace Player

variable {p q : Player} {ms : List Moment} {error : ScriptError}

/-- The steps among moments, as often as they are nested, are a run, and the moments lead to where
this run leads. -/
theorem Follows.run (h : p.Follows (¬·.Tampers) ms q) :
    stepsOf ms = p.outcomes (stepsOf ms).length ∧ (p.run (stepsOf ms).length).Still q := by
  induction ms generalizing p with
  | nil =>
    obtain rfl : q = p := h
    exact ⟨rfl, .refl q⟩
  | cons m ms ih =>
    obtain ⟨rfl, hallowed, hrest⟩ := h
    obtain ⟨hsteps, hrun⟩ := ih hrest
    by_cases hn : m.request = .next
    · obtain ⟨hafter, hanswer⟩ := Moment.of_next hn
      rw [hafter] at hsteps hrun
      rw [stepsOf_cons_of_stepped hanswer]
      exact ⟨congrArg _ hsteps, hrun⟩
    · -- The run starts from a player that may differ in its caches and sprites; it is the same run.
      obtain ⟨hstill, hskip⟩ := Moment.of_plain hn hallowed
      obtain ⟨hsame, houtcomes⟩ := hstill.run (stepsOf ms).length
      rw [hskip]
      exact ⟨hsteps.trans houtcomes, hsame.trans hrun⟩

/-! ## Errors that listeners are given -/

/-- The play has come to an error: it has stopped with it, or the script goes on with it. -/
def Faces (p : Player) (error : ScriptError) : Prop :=
  p.state = .errored error ∨ p.state = .running ∧ p.cursor.advance.outcome = .error error

/-- Whoever asks a player for an element that faces an error gets this error. -/
theorem Faces.step (h : p.Faces error) : p.step.1.Faces error := by
  rcases h with hs | ⟨hs, ho⟩
  · have hstep : p.step = (p, .error error) := step_of_verdict (by rw [hs]; rfl)
    rw [hstep]
    exact .inl hs
  · rw [step_of_failing hs ho]
    exact .inl rfl

theorem Faces.still (h : p.Faces error) (hstill : p.Still q) : q.Faces error := by
  unfold Faces
  rw [hstill.state, hstill.cursor]
  exact h

/-- An error does not go away. -/
theorem Faces.follows (h : p.Faces error) (hf : p.Follows (¬·.Tampers) ms q) : q.Faces error := by
  induction ms generalizing p with
  | nil =>
    obtain rfl : q = p := hf
    exact h
  | cons m ms ih =>
    obtain ⟨rfl, hallowed, hrest⟩ := hf
    refine ih ?_ hrest
    by_cases hn : m.request = .next
    · rw [(Moment.of_next hn).1]
      exact h.step
    · exact h.still (Moment.of_plain hn hallowed).1

end Player

namespace Engine

theorem peek_eq_error_iff {e : Engine} {error : ScriptError} :
    peek e = .error error ↔ e.world.Faces error := by
  unfold Player.Faces
  cases hs : e.world.state with
  | running => rw [peek_of_running hs]; simp
  | errored error' => rw [peek_of_errored hs]; simp
  | exhausted => rw [peek_of_exhausted hs]; simp

/-- Who has been given an error, by a step or by a peek, has come to it. -/
theorem faces_of_answer {m : Moment} {error : ScriptError}
    (h : m.answer = .stepped (.error error) ∨ m.answer = .foretold (.error error)) :
    m.after.world.Faces error := by
  rcases h with h | h
  · have hv := m.verdict?_after_of_stepped h
    exact .inl (PlayState.eq_of_verdict? hv rfl)
  · have hpeek : m.request = .peek := by
      rw [Moment.answer] at h
      cases hr : m.request with
      | peek => rfl
      | _ => rw [hr] at h; cases h
    have hforetold : peek m.engine = .error error := by
      rw [Moment.answer, hpeek] at h
      exact Answer.foretold.inj h
    rw [m.world_after_peek hpeek]
    exact peek_eq_error_iff.1 hforetold

/-! ## Sessions -/

/-- An engine that is about to play a text from its start, whoever listens. -/
structure Opens (e : Engine) (origin : Option Text) (text : Text) : Prop where
  phase : e.world.phase = .running
  stored : e.world.stored = none
  cursor : e.world.cursor = .ofText text origin
  background : e.world.background = none

/-- The listeners that a bus knows do not tamper with the script. -/
theorem only_own : own.Only (¬·.Tampers) :=
  acts_own.mono fun r hr => by cases r <;> first | exact id | cases hr

/-- **No step is lost and none is taken twice.** The caller and listeners of any conduct step and
peek at an engine, from inside one another's calls or not, but leave the script to it. Then the
steps, in the order in which the engine takes them, are the first of those of an engine without
listeners; the two engines are at the same place; and the background and the script are what the
elements given so far have led to. An error that anyone was given, by a step or by a peek, the
caller is given as well when he steps or peeks next. After a step that ends with an error the engine
has stopped with it. A peek leaves the engine as it was, also where it ends with an error. -/
theorem reentrant_steps {cast : Cast} {e : Engine} {origin : Option Text} {text : Text}
    {rs : List Request} (hc : cast.Only (¬·.Tampers)) (he : Opens e origin text)
    (hr : ∀ r ∈ rs, ¬r.Tampers) :
    let moments := course cast rs e
    let after := (serveAllAs cast e rs).1
    let given := elementsOf (stepsOf moments)
    let free := start e.world.config e.world.files e.world.decoder (.ofText text origin)
    let freely := fun n => serveAll free (List.replicate n .next)
    (∀ n, (stepsOf moments).length ≤ n →
      stepsOf moments <+: outcomes (freely n).2 ∧ given <+: elementsOf (outcomes (freely n).2)) ∧
    (freely (stepsOf moments).length).1.world.Still after.world ∧
    after.world.background = lastBackground given ∧
    after.world.source = given.foldl (leadOn e.world.config e.world.files) (origin, text) ∧
    (∀ m ∈ moments, ∀ error, m.answer = .stepped (.error error) →
      after.world.state = .errored error) ∧
    (∀ m ∈ moments, ∀ error,
      m.answer = .stepped (.error error) ∨ m.answer = .foretold (.error error) →
      peek after = .error error ∧ ∀ emit, (nextWith emit after).2 = .error error) ∧
    (∀ m ∈ moments, m.request = .peek → m.after.world = m.engine.world) ∧
    (∀ (m : Moment) emit, (serveWith emit m.engine m.request).2 = m.answer) ∧
    own.Only (¬·.Tampers) ∧ serveAllAs own e rs = serveAll e rs := by
  intro moments after given free freely
  have hfollows : e.world.Follows (¬·.Tampers) moments after.world := follows_course hc hr e
  -- The two engines start at the same place; only what does not matter to the play may differ.
  have hfree : free.world.Still e.world :=
    ⟨⟨rfl, rfl, he.cursor, he.phase, he.stored⟩, he.background⟩
  obtain ⟨hsteps, hrun⟩ := hfollows.run
  have hfreely (n : Nat) := serveAll_quiet (e := free) Bus.only_empty n
  have houtcomes (n : Nat) : e.world.outcomes n = outcomes (freely n).2 :=
    (hfree.run n).2.trans (hfreely n).1.symm
  refine ⟨?_, ?_, ?_, ?_, ?_, ?_, ?_, fun m emit => m.answer_serveWith emit, only_own,
    serveAllAs_own e rs⟩
  · intro n hn
    have hbegins : stepsOf moments <+: outcomes (freely n).2 := by
      rw [← houtcomes, hsteps]
      exact e.world.outcomes_prefix_of_le hn
    exact ⟨hbegins, hbegins.filterMap _⟩
  · rw [(hfreely _).2]
    exact (hfree.run _).1.trans hrun
  · rw [hrun.background, Player.background_run, ← hsteps, he.background, Option.or_none]
  · have hsource : after.world.source = (e.world.run (stepsOf moments).length).source := by
      rw [Player.source, Player.source, hrun.cursor]
    rw [hsource, Player.source_run, ← hsteps, Player.source, he.cursor]
  · intro m hm error ha
    exact (hfollows.state_eq_iff rfl).2 (.inr ⟨m, hm, ha⟩)
  · intro m hm error ha
    obtain ⟨later, hlater⟩ := hfollows.of_mem hm
    have hpeek := peek_eq_error_iff.2 ((faces_of_answer ha).follows hlater)
    refine ⟨hpeek, fun emit => ?_⟩
    rw [nextWith_promised, hpeek]
    rfl
  · intro m hm hpeek
    exact m.world_after_peek hpeek

/-- A reader one of whose listeners steps twice whenever a script is loaded. -/
def eager : Engine :=
  (reader.introduce "ear".toList (.always { actions := [.next, .next] })).subscribe
    "engine.load".toList "ear".toList

theorem opens_eager : Opens eager none opening := ⟨rfl, rfl, rfl, rfl⟩

/-- The second step inside the call of the listener. -/
def lostStep : Moment := (course own [.next, .next] eager).get ⟨3, by decide +kernel⟩

/-- The caller steps twice. The listener takes the element after the jump, and then the error that
there is no way on from there. -/
theorem reentrant_steps_eager :
    let after := (serveAllAs own eager [.next, .next]).1
    let lost : ScriptError :=
      { fault := .unreadable "c.vn".toList
          (.file (.refused .absent (Path.ofText "c.vn".toList))) }
    (own.Only (¬·.Tampers) ∧ Opens eager none opening ∧
        ∀ r ∈ [Request.next, .next], ¬r.Tampers) ∧
      elementsOf (stepsOf (course own [.next, .next] eager)) =
        [.comment, .directive (.jump "b.vn".toList none),
          .dialogue "Ada".toList "hi".toList] ∧
      after.world.source = (some "b.vn".toList, "[Ada] hi\n@jump(c.vn)".toList) ∧
      after.world.state = .errored lost := by
  intro after lost
  have hallowed : ∀ r ∈ [Request.next, .next], ¬r.Tampers := by
    intro r hr
    obtain rfl : r = .next := by simpa using hr
    exact id
  obtain ⟨-, -, -, hsource, herror, -⟩ := reentrant_steps only_own opens_eager hallowed
  have hgiven : elementsOf (stepsOf (course own [.next, .next] eager)) =
      [.comment, .directive (.jump "b.vn".toList none), .dialogue "Ada".toList "hi".toList] := by
    decide +kernel
  refine ⟨⟨only_own, opens_eager, hallowed⟩, hgiven, ?_, ?_⟩
  · rw [hsource, hgiven]
    decide +kernel
  · have hanswer : lostStep.answer = .stepped (.error lost) :=
      Answer.eq_of_outcome? (by decide +kernel)
    exact herror lostStep (List.get_mem _ _) lost hanswer

/-- Whoever is called has a look at what comes next, and fails if that is an error. -/
def curious : Cast := fun _ _ _ =>
  .asks .peek fun
    | .foretold (.error _) => .fails
    | _ => .returns

/-- A script that jumps to one that begins with an error, which a listener looks at. -/
def stumbling : Engine :=
  let files := FileSystem.nameless.install (Path.ofText "b.vn".toList)
    (.file (Utf8.encode "@bad".toList))
  (start {} files (fun _ path => .error (.missingFile path))
    (.ofText "@jump(b.vn)".toList none)).subscribe "engine.load".toList "ear".toList

/-- The peek inside the call of the listener. -/
def nestedPeek : Moment := (course curious [.next] stumbling).get ⟨1, by decide +kernel⟩

def badStart : ScriptError where
  fault := .malformed 4 "'('".toList "Expected '(' after directive name bad".toList
  line := some 1
  column := some 5
  context := some "@bad".toList

/-- The error of the peek ends the call of the listener and is swallowed with it, but the engine
runs on. The caller is given the error when he asks next. -/
theorem nested_peek_leaves_running :
    let after := (serveAllAs curious stumbling [.next]).1
    (curious.Only (¬·.Tampers) ∧ Opens stumbling none "@jump(b.vn)".toList) ∧
      nestedPeek ∈ course curious [.next] stumbling ∧
      nestedPeek.answer.foretold? = some (.error badStart) ∧
      after.records.getLast? = some (Stage.failureRecord "engine.load".toList) ∧
      after.world.phase = .running ∧ after.world.stored = none ∧
      peek after = .error badStart := by
  intro after
  have honly : curious.Only (¬·.Tampers) := by
    refine fun _ _ _ => ⟨id, fun a => ?_⟩
    cases a with
    | foretold outcome => cases outcome <;> trivial
    | _ => trivial
  exact ⟨⟨honly, rfl, rfl, rfl, rfl⟩, List.get_mem _ _, by decide +kernel, by decide +kernel,
    by decide +kernel, by decide +kernel, by decide +kernel⟩

end Engine

end Playscript
