import Playscript.Proofs.Listeners
import Playscript.Proofs.Stream

/-!
# Steps of an engine

One step of a running engine, case by case. The cursor advances; what that gives decides whether the
engine stops, takes a plain element, or has a directive take effect. An effect that quiet listeners
hear of changes the player only as the directive says.

* `Cursor.seek_advance`, `world_rewind_moved`: an advance can be taken back.
* `nextWith_of_error`, `nextWith_of_end`: the ways to stop at a cursor.
* `nextWith_of_plain`, `nextWith_of_effect`: the ways to take an element.
* `nextWith_of_unreadable`: a jump that cannot be made.
* `applyWith_jump`, `applyWith_background`: effects that quiet listeners hear of.
-/

namespace Playscript

namespace Stage

variable {α : Type} (s : Stage α)

@[simp] theorem world_note (h : Happening) : (s.note h).world = s.world := rfl

@[simp] theorem bus_note (h : Happening) : (s.note h).bus = s.bus := rfl

@[simp] theorem world_log (r : Record) : (s.log r).world = s.world := rfl

@[simp] theorem bus_log (r : Record) : (s.log r).bus = s.bus := rfl

@[simp] theorem world_onWorld (f : α → α) : (s.onWorld f).world = f s.world := rfl

@[simp] theorem bus_onWorld (f : α → α) : (s.onWorld f).bus = s.bus := rfl

@[simp] theorem world_logAll (records : List Record) : (s.logAll records).world = s.world := by
  induction records generalizing s with
  | nil => rfl
  | cons r rest ih => exact ih (s.log r)

@[simp] theorem bus_logAll (records : List Record) : (s.logAll records).bus = s.bus := by
  induction records generalizing s with
  | nil => rfl
  | cons r rest ih => exact ih (s.log r)

end Stage

namespace Cursor

theorem origin_advance (c : Cursor) : c.advance.cursor.origin = c.origin := by
  unfold advance
  cases c.scan with
  | error e => rfl
  | ok found => cases found <;> rfl

/-- What a cursor gives, its scan has found. -/
theorem scan_of_outcome {c : Cursor} {element : Element}
    (h : c.advance.outcome = .ok (some element)) :
    ∃ p, c.scan = .ok (some p) ∧ p.element = element := by
  unfold advance at h
  cases hscan : c.scan with
  | error error => simp [hscan] at h
  | ok found =>
    cases found with
    | none => simp [hscan] at h
    | some p =>
      simp only [hscan, Except.ok.injEq, Option.some.injEq] at h
      exact ⟨p, rfl, h⟩

theorem latched_of_outcome {c : Cursor} {element : Element}
    (h : c.advance.outcome = .ok (some element)) : c.latched = none := by
  cases hl : c.latched with
  | none => rfl
  | some error =>
    have := (advance_of_latched hl).1
    rw [h] at this
    cases this

/-- An advance that gave an element can be taken back by a seek. -/
theorem seek_advance {c : Cursor} {element : Element}
    (h : c.advance.outcome = .ok (some element)) : c.advance.cursor.seek c.offset = .ok c := by
  obtain ⟨p, hscan, -⟩ := scan_of_outcome h
  have hl := latched_of_outcome h
  have hlt := (lt_stop_of_scan hscan).1
  rw [advance_of_scan hscan, seek, if_pos (by simp only; omega)]
  cases c
  simp_all

end Cursor

theorem Element.eq_directive_of_mark {element : Element} (h : element.mark = .directive) :
    ∃ d, element = .directive d := by
  cases element with
  | directive d => exact ⟨d, rfl⟩
  | dialogue name body => cases h
  | comment => cases h

namespace Engine

/-- The engine once its cursor has advanced. -/
def moved (e : Engine) : Engine :=
  (e.onWorld fun p => { p with cursor := p.cursor.advance.cursor }).logAll
    e.world.cursor.advance.records

@[simp] theorem world_moved (e : Engine) :
    (moved e).world = { e.world with cursor := e.world.cursor.advance.cursor } := by
  simp [moved]

@[simp] theorem bus_moved (e : Engine) : (moved e).bus = e.bus := by
  simp [moved]

/-- Moving the cursor does not change where a directive leads. -/
theorem effectOf_moved (e : Engine) (d : Directive) :
    effectOf (moved e).world d = effectOf e.world d := by
  cases d with
  | jump path choices =>
    have horigin : originOf (moved e).world.cursor = originOf e.world.cursor := by
      simp [originOf, Cursor.origin_advance]
    simp only [effectOf, openScript, resolvePath, horigin]
    simp
  | loadBackground path => rfl

/-- Taking the cursor back undoes the advance. -/
theorem world_rewind_moved {e : Engine} {element : Element}
    (h : e.world.cursor.advance.outcome = .ok (some element)) :
    (rewind (moved e) e.world.cursor.offset).world = e.world := by
  obtain ⟨p, hscan, -⟩ := Cursor.scan_of_outcome h
  have hl := Cursor.latched_of_outcome h
  have hcursor : ({ e.world.cursor with latched := none } : Cursor) = e.world.cursor := by
    rw [← hl]
  simp only [rewind, Stage.world_onWorld, world_moved, Cursor.advance_of_scan hscan]
  rw [hcursor]

/-! ## One step -/

section
variable {emit : Stage.Emitter Player} {e : Engine}

theorem nextWith_of_error (hs : e.world.state = .running) {error : ScriptError}
    (h : e.world.cursor.advance.outcome = .error error) :
    nextWith emit e = (fail (moved e) error, .error error) := by
  simp only [nextWith, hs, h]
  rfl

theorem nextWith_of_end (hs : e.world.state = .running)
    (h : e.world.cursor.advance.outcome = .ok none) :
    nextWith emit e = ((moved e).onWorld Player.ended, .ok none) := by
  simp only [nextWith, hs, h]
  rfl

theorem nextWith_of_plain (hs : e.world.state = .running) {element : Element}
    (h : e.world.cursor.advance.outcome = .ok (some element)) (hm : element.mark ≠ .directive) :
    nextWith emit e = ((moved e).note (.taken element), .ok (some element)) := by
  cases element with
  | directive d => exact absurd rfl hm
  | dialogue name body =>
    simp only [nextWith, hs, h]
    rfl
  | comment =>
    simp only [nextWith, hs, h]
    rfl

theorem nextWith_of_directive (hs : e.world.state = .running) {d : Directive}
    (h : e.world.cursor.advance.outcome = .ok (some (.directive d))) :
    nextWith emit e =
      match execWith emit (·.note (.taken (.directive d))) (moved e) d with
      | (after, .error error) => (fail (rewind after e.world.cursor.offset) error, .error error)
      | (after, .ok ()) => (after, .ok (some (.directive d))) := by
  simp only [nextWith, hs, h]
  rfl

theorem nextWith_of_effect (hs : e.world.state = .running) {d : Directive} {effect : Effect}
    (h : e.world.cursor.advance.outcome = .ok (some (.directive d)))
    (he : effectOf e.world d = .ok effect) :
    nextWith emit e =
      (applyWith emit ((moved e).note (.taken (.directive d))) effect,
        .ok (some (.directive d))) := by
  rw [nextWith_of_directive hs h, execWith, effectOf_moved, he]

/-- A jump whose target cannot be opened stops the engine before the jump. -/
theorem nextWith_of_unreadable (hs : e.world.state = .running) {d : Directive}
    {error : ScriptError} (h : e.world.cursor.advance.outcome = .ok (some (.directive d)))
    (he : effectOf e.world d = .error error) :
    nextWith emit e = (fail (rewind (moved e) e.world.cursor.offset) error, .error error) := by
  rw [nextWith_of_directive hs h, execWith, effectOf_moved, he]

end

/-! ## Effects that quiet listeners hear of -/

/-- A jump puts its target in the place of the current script. -/
theorem applyWith_jump {e : Engine} (hq : e.bus.Quiet) (target : Cursor) (path : Text)
    (choices : Option (Text × Text)) :
    (applyWith emit e (.jump target path choices)).bus.Quiet ∧
      (applyWith emit e (.jump target path choices)).world =
        { e.world with cursor := target, replaced := e.world.replaced + 1 } := by
  have hload (s : Engine) (hs : s.bus.Quiet) : (replaceScriptWith emit s target).bus.Quiet ∧
      (replaceScriptWith emit s target).world =
        { s.world with cursor := target, replaced := s.world.replaced + 1 } :=
    Stage.world_emit nextWith (s := s.onWorld _) hs _ _
  obtain ⟨hqload, hwload⟩ := hload ((e.log target.loadRecord).log
    ⟨.info, .directives, "jump -> ".toList ++ target.origin.getD "None".toList⟩) hq
  obtain ⟨hqjump, hwjump⟩ := Stage.world_emit nextWith hqload "engine.jump".toList
    (jumpPayload path choices)
  exact ⟨hqjump, hwjump.trans hwload⟩

/-- A background becomes the current one. -/
theorem applyWith_background {e : Engine} (hq : e.bus.Quiet) (path : Text) :
    (applyWith emit e (.background path)).bus.Quiet ∧
      (applyWith emit e (.background path)).world =
        { e.world with background := some path } := by
  refine Stage.world_emit nextWith (s := (e.onWorld _).log _) ?_ _ _
  exact hq

end Engine

end Playscript
