import Playscript.Proofs.Steps

/-!
# Failed jumps

A step has moved its cursor past a jump by the time it finds that the target cannot be read. It
takes the cursor back, and that is all there is to undo: nothing else happens before the target is
open, and nothing can fail after that. A step that guards its way back, and would do anything
whatever if that were barred, is therefore the same step, for listeners as well.

* `failed_exec`: a directive that fails has done nothing.
* `guardedStep_eq`: the way back is never barred.
* `failed_jump_undone`: after a failed jump the engine has stopped where it was.
-/

namespace Playscript

namespace Engine

/-- What could bar the way back of a step whose directive has failed. -/
inductive Barrier
  /-- The cursor refuses to go where the step found it. -/
  | refused (s : SeekRefused)
  /-- By now another script is the current one. -/
  | replaced (error : ScriptError)

/-- What one does about a barrier. -/
abbrev OnBarrier := Engine → Barrier → Engine × Except ScriptError (Option Element)

/-- The end of a step from `e` whose directive has failed: the cursor goes back by a seek, if its
script is still the current one. -/
def goBack (barred : OnBarrier) (e after : Engine) (error : ScriptError) :
    Engine × Except ScriptError (Option Element) :=
  if after.world.replaced = e.world.replaced then
    match after.world.cursor.seek e.world.cursor.offset with
    | .error s => barred after (.refused s)
    | .ok cursor => (fail (after.onWorld fun p => { p with cursor }) error, .error error)
  else barred after (.replaced error)

/-- A step that guards its way back. -/
def guardedStep (barred : OnBarrier) (emit : Stage.Emitter Player) : Stage.Stepper Player :=
  fun e =>
    match e.world.state with
    | .errored error => (e, .error error)
    | .exhausted => (e, .ok none)
    | .running =>
      match e.world.cursor.advance.outcome with
      | .error error => (fail (moved e) error, .error error)
      | .ok none => ((moved e).onWorld Player.ended, .ok none)
      | .ok (some (.directive d)) =>
        match execWith emit (·.note (.taken (.directive d))) (moved e) d with
        | (after, .error error) => goBack barred e after error
        | (after, .ok ()) => (after, .ok (some (.directive d)))
      | .ok (some element) => ((moved e).note (.taken element), .ok (some element))

/-! ## The way back -/

/-- A directive that fails has done nothing, whatever its success would have set off. -/
theorem failed_exec {emit : Stage.Emitter Player} {begun : Engine → Engine} {e after : Engine}
    {d : Directive} {error : ScriptError} (h : execWith emit begun e d = (after, .error error)) :
    after = e ∧ effectOf e.world d = .error error := by
  unfold execWith at h
  cases heffect : effectOf e.world d with
  | error found =>
    simp only [heffect, Prod.mk.injEq, Except.error.injEq] at h
    obtain ⟨rfl, rfl⟩ := h
    exact ⟨rfl, rfl⟩
  | ok effect =>
    simp only [heffect, Prod.mk.injEq] at h
    cases h.2

/-- From where an advance led, the way back is open. -/
theorem goBack_moved (barred : OnBarrier) {e : Engine} {element : Element}
    (h : e.world.cursor.advance.outcome = .ok (some element)) (error : ScriptError) :
    goBack barred e (moved e) error =
      (fail (rewind (moved e) e.world.cursor.offset) error, .error error) := by
  have hseek : (moved e).world.cursor.seek e.world.cursor.offset = .ok e.world.cursor := by
    rw [world_moved]
    exact Cursor.seek_advance h
  have hback : ((moved e).onWorld fun p => { p with cursor := e.world.cursor })
      = rewind (moved e) e.world.cursor.offset := by
    have hworld := world_rewind_moved h
    rw [rewind, Stage.onWorld, Stage.onWorld]
    rw [rewind, Stage.world_onWorld] at hworld
    rw [hworld, world_moved]
  rw [goBack, if_pos (by rw [world_moved])]
  simp only [hseek, hback]

/-- The way back is never barred. -/
theorem guardedStep_eq (barred : OnBarrier) : guardedStep barred = nextWith := by
  funext emit e
  rw [guardedStep]
  cases hs : e.world.state with
  | errored error => rw [nextWith_of_errored hs]
  | exhausted => rw [nextWith_of_exhausted hs]
  | running =>
    cases houtcome : e.world.cursor.advance.outcome with
    | error error => rw [nextWith_of_error hs houtcome]
    | ok found =>
      cases found with
      | none => rw [nextWith_of_end hs houtcome]
      | some element =>
        cases element with
        | dialogue name body => rw [nextWith_of_plain hs houtcome (by simp [Element.mark])]
        | comment => rw [nextWith_of_plain hs houtcome (by simp [Element.mark])]
        | directive d =>
          rw [nextWith_of_directive hs houtcome]
          rcases hexec : execWith emit (·.note (.taken (.directive d))) (moved e) d with
            ⟨after, outcome⟩
          cases outcome with
          | ok done => simp only [hexec]
          | error error =>
            obtain ⟨rfl, -⟩ := failed_exec hexec
            simp only [hexec, goBack_moved barred houtcome]

/-! ## After a failed jump -/

/-- The engine has stopped with an error where it was before: with the script that it had, at the
place where it was, and with its bus untouched. Only the log tells of a try. -/
structure StoppedInPlace (e after : Engine) (error : ScriptError) : Prop where
  world : after.world = e.world.halted error
  bus : after.bus = e.bus
  journal : ∃ records : List Record, after.journal = e.journal ++ records.map .logged
  unfailed : after.world.cursor.failed = false

theorem stoppedInPlace_of_unreadable {emit : Stage.Emitter Player} {e : Engine}
    (hs : e.world.state = .running) {d : Directive} {error : ScriptError}
    (h : e.world.cursor.advance.outcome = .ok (some (.directive d)))
    (he : effectOf e.world d = .error error) :
    (nextWith emit e).2 = .error error ∧ StoppedInPlace e (nextWith emit e).1 error := by
  have hworld := world_rewind_moved h
  rw [nextWith_of_unreadable hs h he]
  refine ⟨rfl, ?_, ?_, ?_, ?_⟩
  · rw [fail, Stage.world_log, Stage.world_onWorld, hworld]
  · rw [fail, Stage.bus_log, Stage.bus_onWorld, rewind, Stage.bus_onWorld, bus_moved]
  · refine ⟨e.world.cursor.advance.records ++
      [record ("engine halted: ".toList ++ error.message)], ?_⟩
    have hmoved : (moved e).journal = e.journal ++ e.world.cursor.advance.records.map .logged :=
      Stage.journal_logAll ..
    rw [fail, Stage.log, Stage.journal_note, List.map_append, ← List.append_assoc, ← hmoved]
    rfl
  · rw [fail, Stage.world_log, Stage.world_onWorld, hworld]
    simp [Cursor.failed, Cursor.latched_of_outcome h]

/-- An engine that can foretell an element is running, and its cursor is about to give it. -/
theorem running_of_peek {e : Engine} {element : Element} (h : peek e = .ok (some element)) :
    e.world.state = .running ∧ e.world.cursor.advance.outcome = .ok (some element) := by
  cases hs : e.world.state with
  | errored error =>
    rw [peek_of_errored hs] at h
    cases h
  | exhausted =>
    rw [peek_of_exhausted hs] at h
    cases h
  | running =>
    refine ⟨rfl, ?_⟩
    rw [Cursor.outcome_advance]
    simpa [peek, hs] using h

/-- **A failed jump is undone.** Where the next element is a jump to what cannot be read, a step
stops the engine with that error and leaves everything else as it was. This holds for the steps
that listeners take as well, whatever the bus; and however a step would deal with a way back that
is barred, an engine of such steps, outer and nested, is the same engine. -/
theorem failed_jump_undone :
    (∀ (emit : Stage.Emitter Player) (e : Engine) (path : Text) (choices : Option (Text × Text))
        (reason : Reason),
      peek e = .ok (some (.directive (.jump path choices))) →
      e.world.files.readText (resolvePath e.world path) e.world.config.encoding = .error reason →
      let error : ScriptError :=
        { fault := .unreadable (resolvePath e.world path).toText reason }
      (nextWith emit e).2 = .error error ∧ StoppedInPlace e (nextWith emit e).1 error) ∧
    (∀ barred : OnBarrier,
      guardedStep barred = nextWith ∧ guardedStep barred (Stage.emit (guardedStep barred)) = next) ∧
    (∀ (emit : Stage.Emitter Player) (begun : Engine → Engine) (e after : Engine) (d : Directive)
        (error : ScriptError),
      execWith emit begun e d = (after, .error error) → after = e) := by
  refine ⟨?_, ?_, ?_⟩
  · intro emit e path choices reason hpeek hread
    obtain ⟨hs, houtcome⟩ := running_of_peek hpeek
    refine stoppedInPlace_of_unreadable hs houtcome ?_
    simp only [effectOf, openScript, Cursor.ofFile, hread]
  · intro barred
    rw [guardedStep_eq]
    exact ⟨rfl, rfl⟩
  · intro emit begun e after d error h
    exact (failed_exec h).1

/-- A script whose first element leads nowhere, and a listener that steps the engine. -/
def stranded : Engine :=
  let e := start {} FileSystem.nameless (fun _ path => .error (.missingFile path))
    (.ofText "\n  @jump(no.vn)\n[A] x".toList none)
  (e.introduce "ear".toList (.always { actions := [.next] })).subscribe "engine.load".toList
    "ear".toList

theorem peek_stranded :
    peek stranded = .ok (some (.directive (.jump "no.vn".toList none))) := by
  rfl

theorem readText_stranded :
    stranded.world.files.readText (resolvePath stranded.world "no.vn".toList)
        stranded.world.config.encoding =
      .error (.file (.refused .absent (Path.ofText "no.vn".toList))) := by
  rfl

theorem failed_jump_undone_stranded :
    (peek stranded = .ok (some (.directive (.jump "no.vn".toList none))) ∧
        stranded.world.files.readText (resolvePath stranded.world "no.vn".toList)
            stranded.world.config.encoding =
          .error (.file (.refused .absent (Path.ofText "no.vn".toList)))) ∧
      let error : ScriptError :=
        { fault := .unreadable "no.vn".toList
            (.file (.refused .absent (Path.ofText "no.vn".toList))) }
      (next stranded).2 = .error error ∧ StoppedInPlace stranded (next stranded).1 error :=
  ⟨⟨peek_stranded, readText_stranded⟩,
    failed_jump_undone.1 emit stranded _ none _ peek_stranded readText_stranded⟩

end Engine

end Playscript
