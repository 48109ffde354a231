import Playscript.Proofs.Turns
import Playscript.Proofs.Playback

/-!
# Runs

A player that takes one step after the other. An engine whose listeners leave it alone does just
that. What a run leaves behind can be told from the elements it gave: the background is the last
that was set, and the script is the one that the last jump led to.

* `Player.run`, `Player.outcomes`: where a run ends, and what it gives.
* `serveAll_quiet`: the run of an engine before quiet listeners.
* `outcomes_eq_foretold`: it gives the playback of what is left of the script.
* `background_run`: the background after a run.
* `source_run`: the script after a run.
-/

namespace Playscript

open Engine (effectOf)

/-- A player after a number of steps. -/
def Player.run : Nat → Player → Player
  | 0, p => p
  | n + 1, p => run n p.step.1

/-- What a number of steps give. -/
def Player.outcomes : Nat → Player → List Engine.Outcome
  | 0, _ => []
  | n + 1, p => p.step.2 :: outcomes n p.step.1

/-- A longer run begins as the shorter one does. -/
theorem Player.outcomes_prefix_of_le (p : Player) {k n : Nat} (h : k ≤ n) :
    p.outcomes k <+: p.outcomes n := by
  induction k generalizing p n with
  | zero => exact List.nil_prefix
  | succ k ih =>
    cases n with
    | zero => omega
    | succ n => exact List.cons_prefix_cons.2 ⟨rfl, ih p.step.1 (by omega)⟩

/-! ## Runs of players at the same place -/

theorem Player.Still.trans {p q r : Player} (h : p.Still q) (h' : q.Still r) : p.Still r where
  config := h'.config.trans h.config
  files := h'.files.trans h.files
  cursor := h'.cursor.trans h.cursor
  phase := h'.phase.trans h.phase
  stored := h'.stored.trans h.stored
  background := h'.background.trans h.background

theorem Player.Alike.effectOf {p q : Player} (h : p.Alike q) (d : Directive) :
    effectOf q d = effectOf p d := by
  cases d with
  | loadBackground path => rfl
  | jump path choices =>
    simp only [Engine.effectOf, Engine.openScript, Engine.resolvePath, h.config, h.files, h.cursor]

theorem Player.Still.step {p q : Player} (h : p.Still q) :
    p.step.1.Still q.step.1 ∧ q.step.2 = p.step.2 := by
  cases p.sort with
  | stopped hv =>
    rw [step_of_verdict hv, step_of_verdict (p := q) (h.state ▸ hv)]
    exact ⟨h, rfl⟩
  | failing hs ho =>
    rw [step_of_failing hs ho, step_of_failing (h.state.trans hs) (h.cursor ▸ ho)]
    exact ⟨⟨⟨h.config, h.files, congrArg (·.advance.cursor) h.cursor, rfl, rfl⟩, h.background⟩, rfl⟩
  | ending hs ho =>
    rw [step_of_ending hs ho, step_of_ending (h.state.trans hs) (h.cursor ▸ ho)]
    exact ⟨⟨⟨h.config, h.files, congrArg (·.advance.cursor) h.cursor, rfl, h.stored⟩, h.background⟩,
      rfl⟩
  | plain hs ho hm =>
    rw [step_of_plain hs ho hm, step_of_plain (h.state.trans hs) (h.cursor ▸ ho) hm]
    exact ⟨⟨⟨h.config, h.files, by rw [h.cursor], h.phase, h.stored⟩, h.background⟩, rfl⟩
  | @impossible d error hs ho he =>
    rw [step_of_impossible hs ho he,
      step_of_impossible (h.state.trans hs) (h.cursor ▸ ho) ((h.effectOf d).trans he)]
    exact ⟨⟨⟨h.config, h.files, h.cursor, rfl, rfl⟩, h.background⟩, rfl⟩
  | @possible d effect hs ho he =>
    rw [step_of_possible hs ho he,
      step_of_possible (h.state.trans hs) (h.cursor ▸ ho) ((h.effectOf d).trans he)]
    cases effect with
    | jump target path choices =>
      exact ⟨⟨⟨h.config, h.files, rfl, h.phase, h.stored⟩, h.background⟩, rfl⟩
    | background path =>
      exact ⟨⟨⟨h.config, h.files, by simp only [apply, h.cursor], h.phase, h.stored⟩, rfl⟩, rfl⟩

theorem Player.Still.run {p q : Player} (h : p.Still q) (n : Nat) :
    (p.run n).Still (q.run n) ∧ q.outcomes n = p.outcomes n := by
  induction n generalizing p q with
  | zero => exact ⟨h, rfl⟩
  | succ n ih =>
    obtain ⟨hstep, houtcome⟩ := h.step
    obtain ⟨hrun, houtcomes⟩ := ih hstep
    exact ⟨hrun, by rw [outcomes, outcomes, houtcome, houtcomes]⟩

/-! ## Runs of engines -/

namespace Engine

theorem bus_own_next (e : Engine) : (nextWith unheard e).1.bus = e.bus := by
  cases e.world.sort with
  | stopped h => rw [nextWith_of_verdict h]
  | failing hs h => simp [nextWith_of_error hs h, fail]
  | ending hs h => simp [nextWith_of_end hs h]
  | plain hs h hm => simp [nextWith_of_plain hs h hm]
  | impossible hs h he => simp [nextWith_of_unreadable hs h he, fail, rewind]
  | @possible d effect hs h he =>
    rw [nextWith_of_effect hs h he]
    cases effect <;> simp [applyWith, replaceScriptWith, unheard]

/-- A request that brings in no listener that would do what is not allowed. -/
def Request.Brings (P : Action → Prop) : Request → Prop
  | .introduce _ l => l.Only P
  | _ => True

/-- What the engine does itself brings in no such listener either. -/
theorem only_own_of_brings {P : Action → Prop} {e : Engine} {r : Request} (hr : r.Brings P)
    (h : e.bus.Only P) : (serveWith unheard e r).1.bus.Only P := by
  cases r with
  | next =>
    rw [serveWith, bus_own_next]
    exact h
  | peek => exact (peeked_eq e).2 ▸ h
  | background => exact (backgroundImage_alike e).2 ▸ h
  | portrait s => exact (spriteImage_alike e s).2 ▸ h
  | introduce name l => exact h.introduce name hr
  | subscribe event name => exact h.of_cast (Bus.cast_subscribe ..)
  | unsubscribe event name => exact h.of_cast (Bus.cast_unsubscribe ..)
  | advance => exact (bus_moved e) ▸ h
  | _ => exact h

/-- What quiet listeners hear of leaves the player as it is, and them quiet. -/
theorem announce_quiet {e : Engine} (h : e.bus.Quiet) (events : List Event) :
    (announce Engine.emit e events).bus.Quiet ∧
      (announce Engine.emit e events).world = e.world := by
  induction events generalizing e with
  | nil => exact ⟨h, rfl⟩
  | cons event rest ih =>
    obtain ⟨hquiet, hworld⟩ := Stage.world_emit nextWith h event.1 event.2
    obtain ⟨hquiet', hworld'⟩ := ih hquiet
    exact ⟨hquiet', hworld'.trans hworld⟩

theorem next_quiet {e : Engine} (h : e.bus.Quiet) :
    (next e).1.bus.Quiet ∧ (next e).1.world = e.world.step.1 ∧ (next e).2 = e.world.step.2 := by
  obtain ⟨hworld, houtcome⟩ := own_next e
  have hown : (nextWith unheard e).1.bus.Quiet := by rwa [bus_own_next]
  obtain ⟨hquiet, hannounced⟩ := announce_quiet hown (eventsOf e .next)
  rw [next, nextWith_eq_announce]
  exact ⟨hquiet, hannounced.trans hworld, houtcome⟩

/-- Before quiet listeners the steps of an engine are a run of its player. -/
theorem serveAll_quiet {e : Engine} (h : e.bus.Quiet) (n : Nat) :
    outcomes (serveAll e (List.replicate n .next)).2 = e.world.outcomes n ∧
      (serveAll e (List.replicate n .next)).1.world = e.world.run n := by
  induction n generalizing e with
  | zero => exact ⟨rfl, rfl⟩
  | succ n ih =>
    obtain ⟨hquiet, hworld, houtcome⟩ := next_quiet h
    obtain ⟨houtcomes, hrun⟩ := ih hquiet
    rw [hworld] at houtcomes hrun
    rw [List.replicate_succ, serveAll, Player.outcomes, ← houtcome, ← houtcomes]
    exact ⟨rfl, hrun⟩

/-- The steps of an engine that is ready give what was foretold of its player. -/
theorem outcomes_eq_foretold {e : Engine} (he : Ready e) (n : Nat) :
    e.world.outcomes n = e.world.foretold n := by
  have hsteps : ∀ r ∈ List.replicate n Request.next, r = .next ∨ r.Idle :=
    fun r hr => .inl (List.eq_of_mem_replicate hr)
  have hcount : (List.replicate n Request.next).countP Request.isNext = n := by
    rw [List.countP_replicate, if_pos (by rfl)]
  rw [← (serveAll_quiet he.quiet n).1, outcomes_of_ready he hsteps, hcount]

/-- A fresh engine plays its text. -/
theorem Fresh.outcomes_eq {e : Engine} {origin : Option Text} {text : Text}
    (he : Fresh e origin text) (n : Nat) :
    e.world.outcomes n = playback e.world.config e.world.files n origin text := by
  have hready : Ready e := ⟨he.quiet, fun _ => by rw [he.cursor]⟩
  rw [outcomes_eq_foretold hready, Player.foretold_of_running he.state, he.cursor]
  rfl

/-! ## What a run leaves behind -/

/-- The elements among outcomes. -/
def elementsOf (os : List Outcome) : List Element :=
  os.filterMap fun
    | .ok found => found
    | .error _ => none

@[simp] theorem Outcome.stops_error (error : ScriptError) : Outcome.Stops (.error error) := by
  simp [Outcome.Stops]

@[simp] theorem Outcome.stops_none : Outcome.Stops (.ok none) := by
  simp [Outcome.Stops]

theorem elementsOf_cons_of_stops {o : Outcome} (h : o.Stops) (os : List Outcome) :
    elementsOf (o :: os) = elementsOf os := by
  cases o with
  | error error => rfl
  | ok found =>
    cases found with
    | none => rfl
    | some element => exact absurd rfl (h element)

theorem elementsOf_cons_element (element : Element) (os : List Outcome) :
    elementsOf (.ok (some element) :: os) = element :: elementsOf os := rfl

end Engine

open Engine (elementsOf elementsOf_cons_of_stops)

/-- The background that an element sets. -/
def Element.background? : Element → Option Text
  | .directive (.loadBackground path) => some path
  | _ => none

def Element.isJump : Element → Bool
  | .directive (.jump _ _) => true
  | _ => false

/-- The last background that is set. -/
def lastBackground (elements : List Element) : Option Text :=
  (elements.filterMap Element.background?).getLast?

/-- The origin and the text of a script. -/
abbrev Source := Option Text × Text

def Player.source (p : Player) : Source := (p.cursor.origin, p.cursor.text)

/-- A jump leads from the script that it stands in to its target. -/
def leadOn (config : Config) (files : FileSystem) (source : Source) : Element → Source
  | .directive (.jump path _) =>
    let target := jumpTarget config source.1 path
    match files.readText target config.encoding with
    | .error _ => source
    | .ok text => (some target.toText, text)
  | _ => source

theorem leadOn_of_plain {config : Config} {files : FileSystem} {source : Source} {element : Element}
    (h : element.mark ≠ .directive) : leadOn config files source element = source := by
  cases element with
  | directive d => exact absurd rfl h
  | dialogue name body => rfl
  | comment => rfl

theorem Element.background?_of_plain {element : Element} (h : element.mark ≠ .directive) :
    element.background? = none := by
  cases element with
  | directive d => exact absurd rfl h
  | dialogue name body => rfl
  | comment => rfl

theorem source_advance (p : Player) :
    ({ p with cursor := p.cursor.advance.cursor } : Player).source = p.source := by
  simp only [Player.source, Cursor.origin_advance, Cursor.text_advance]

theorem lastBackground_cons (element : Element) (rest : List Element) (before : Option Text) :
    (lastBackground (element :: rest)).or before =
      (lastBackground rest).or (element.background?.or before) := by
  unfold lastBackground
  cases h : element.background? with
  | none => rw [List.filterMap_cons_none h, Option.none_or]
  | some path =>
    rw [List.filterMap_cons_some h, List.getLast?_cons]
    cases (rest.filterMap Element.background?).getLast? <;> rfl

/-- A jump is possible where its target can be read, and leads to the start of that. -/
theorem Engine.effectOf_jump_eq_ok {p : Player} {path : Text} {choices : Option (Text × Text)}
    {effect : Effect} (h : effectOf p (.jump path choices) = .ok effect) :
    ∃ text, p.files.readText (jumpTarget p.config p.cursor.origin path) p.config.encoding =
        .ok text ∧
      effect = .jump
        (.ofText text (some (jumpTarget p.config p.cursor.origin path).toText)) path choices := by
  rw [effectOf_jump, resolvePath_eq] at h
  cases hread : p.files.readText (jumpTarget p.config p.cursor.origin path) p.config.encoding with
  | error reason => simp only [hread, reduceCtorEq] at h
  | ok text =>
    simp only [hread, Except.ok.injEq] at h
    exact ⟨text, rfl, h.symm⟩

/-- What a step leaves behind: nothing new if it gives no element, and otherwise what the element
says. -/
theorem Player.step_leaves (p : Player) :
    p.step.1.config = p.config ∧ p.step.1.files = p.files ∧
      (p.step.2.Stops ∧
          p.step.1.background = p.background ∧ p.step.1.source = p.source ∨
        ∃ element, p.step.2 = .ok (some element) ∧
          p.step.1.background = element.background?.or p.background ∧
          p.step.1.source = leadOn p.config p.files p.source element) := by
  cases p.sort with
  | stopped h =>
    rw [step_of_verdict h]
    refine ⟨rfl, rfl, .inl ⟨?_, rfl, rfl⟩⟩
    rcases PlayState.verdict?_eq_some h with ⟨error, -, rfl⟩ | ⟨-, rfl⟩ <;> simp
  | failing hs h =>
    rw [step_of_failing hs h]
    exact ⟨rfl, rfl, .inl ⟨by simp, rfl, source_advance p⟩⟩
  | ending hs h =>
    rw [step_of_ending hs h]
    exact ⟨rfl, rfl, .inl ⟨by simp, rfl, source_advance p⟩⟩
  | plain hs h hm =>
    rw [step_of_plain hs h hm]
    refine ⟨rfl, rfl, .inr ⟨_, rfl, ?_, ?_⟩⟩
    · rw [Element.background?_of_plain hm, Option.none_or]
    · rw [leadOn_of_plain hm]
      exact source_advance p
  | impossible hs h he =>
    rw [step_of_impossible hs h he]
    exact ⟨rfl, rfl, .inl ⟨by simp, rfl, rfl⟩⟩
  | @possible d effect hs h he =>
    rw [step_of_possible hs h he]
    cases d with
    | loadBackground path =>
      obtain rfl : effect = .background path := (Except.ok.inj he).symm
      exact ⟨rfl, rfl, .inr ⟨_, rfl, rfl, source_advance p⟩⟩
    | jump path choices =>
      obtain ⟨text, hread, rfl⟩ := Engine.effectOf_jump_eq_ok he
      refine ⟨rfl, rfl, .inr ⟨_, rfl, rfl, ?_⟩⟩
      simp only [leadOn, Player.source, hread]
      rfl

/-- The background after a run is the last that was set. -/
theorem Player.background_run (p : Player) (n : Nat) :
    (p.run n).background = (lastBackground (elementsOf (p.outcomes n))).or p.background := by
  induction n generalizing p with
  | zero => rfl
  | succ n ih =>
    rw [run, outcomes, ih]
    obtain ⟨-, -, ⟨hstops, hback, -⟩ | ⟨element, ho, hback, -⟩⟩ := p.step_leaves
    · rw [hback, elementsOf_cons_of_stops hstops]
    · rw [hback, ho]
      exact (lastBackground_cons ..).symm

/-- The script after a run is the one that its jumps have led to. -/
theorem Player.source_run (p : Player) (n : Nat) :
    (p.run n).source = (elementsOf (p.outcomes n)).foldl (leadOn p.config p.files) p.source := by
  induction n generalizing p with
  | zero => rfl
  | succ n ih =>
    rw [run, outcomes, ih]
    obtain ⟨hconfig, hfiles, ⟨hstops, -, hsource⟩ | ⟨element, ho, -, hsource⟩⟩ := p.step_leaves
    · rw [hconfig, hfiles, hsource, elementsOf_cons_of_stops hstops]
    · rw [hconfig, hfiles, hsource, ho]
      rfl

end Playscript
