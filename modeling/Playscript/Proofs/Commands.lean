import Playscript.Proofs.Openings
import Playscript.Proofs.OutputLines
import Playscript.Proofs.Tiling

/-!
# Commands

A script without jumps is played from end to end when it is run, and read from end to end when it
is checked. The two commands find the same elements and the same error. What a run tells its
operator on the way is no graver than information.

* `calm_next`: a step that nobody listens to logs nothing graver.
* `play_eq`: what is printed when a script without jumps is played.
* `check_eq`: what is printed when it is checked.
* `run_agrees_with_check`: the two side by side.
-/

namespace Playscript

/-! ## The log of an engine that nobody listens to -/

/-- A record that is no graver than information. -/
def Record.Mild (r : Record) : Prop := r.level.rank ≤ Level.info.rank

theorem Record.mild_debug (speaker : Speaker) (message : Text) :
    Record.Mild ⟨.debug, speaker, message⟩ := by
  show Level.debug.rank ≤ Level.info.rank
  decide

theorem Record.mild_info (speaker : Speaker) (message : Text) :
    Record.Mild ⟨.info, speaker, message⟩ := Nat.le_refl _

theorem Record.shown_append (threshold : Nat) (rs later : List Record) :
    Record.shown threshold (rs ++ later) =
      Record.shown threshold rs ++ Record.shown threshold later := by
  simp only [Record.shown, List.filter_append, List.map_append]

theorem Record.shown_of_mild {threshold : Nat} (h : Level.info.rank < threshold)
    {rs : List Record} (hrs : ∀ r ∈ rs, r.Mild) : Record.shown threshold rs = [] := by
  rw [Record.shown, List.filter_eq_nil_iff.2, List.map_nil]
  intro r hr
  have hmild : r.level.rank ≤ Level.info.rank := hrs r hr
  simp only [decide_eq_true_eq]
  omega

namespace Stage

variable {α : Type}

theorem mem_records {s : Stage α} {r : Record} : r ∈ s.records ↔ .logged r ∈ s.past := by
  simp only [records, journal, List.mem_filterMap, List.mem_reverse]
  constructor
  · rintro ⟨h, hpast, hr⟩
    cases h with
    | logged r' =>
      obtain rfl := Option.some.inj hr
      exact hpast
    | _ => cases hr
  · exact fun h => ⟨_, h, rfl⟩

/-- Nobody is on the list of any event, and what was logged is mild. -/
structure Calm (s : Stage α) : Prop where
  unheard : s.bus.lists = []
  mild : ∀ r, .logged r ∈ s.past → r.Mild

namespace Calm

variable {s : Stage α}

theorem note (h : s.Calm) {happening : Happening}
    (hm : ∀ r, happening = .logged r → r.Mild) : (s.note happening).Calm := by
  refine ⟨h.unheard, fun r hr => ?_⟩
  rcases List.mem_cons.1 hr with hr | hr
  · exact hm r hr.symm
  · exact h.mild r hr

theorem log (h : s.Calm) {r : Record} (hr : r.Mild) : (s.log r).Calm := by
  apply h.note
  intro r' hlogged
  obtain rfl := Happening.logged.inj hlogged
  exact hr

theorem logAll (h : s.Calm) {rs : List Record} (hrs : ∀ r ∈ rs, r.Mild) : (s.logAll rs).Calm := by
  induction rs generalizing s with
  | nil => exact h
  | cons r rest ih =>
    obtain ⟨hr, hrest⟩ := List.forall_mem_cons.1 hrs
    exact ih (h.log hr) hrest

theorem onWorld (h : s.Calm) (f : α → α) : (s.onWorld f).Calm := ⟨h.unheard, h.mild⟩

theorem forget (h : s.Calm) : s.forget.Calm := ⟨h.unheard, fun r hr => by cases hr⟩

theorem announced (h : s.Calm) (event : Text) (payload : Payload) :
    (s.announced event payload).Calm := by
  have hcounted : (s.onBus (·.count event)).Calm := ⟨h.unheard, h.mild⟩
  exact hcounted.note fun r hr => by cases hr

theorem records (h : s.Calm) : ∀ r ∈ s.records, r.Mild := fun r hr => h.mild r (mem_records.1 hr)

end Calm

/-- An emission that nobody hears is no more than its announcement. -/
theorem emit_unheard (stepWith : Emitter α → Stepper α) {s : Stage α} (h : s.bus.lists = [])
    (event : Text) (payload : Payload) :
    emit stepWith s event payload = s.announced event payload := by
  have hnobody : s.bus.listenersOf event = [] := by
    rw [Bus.listenersOf, h]
    rfl
  rw [emit, emitWith_eq, hnobody]
  rfl

end Stage

theorem Cursor.mild_advance (c : Cursor) : ∀ r ∈ c.advance.records, r.Mild := by
  intro r hr
  cases hscan : c.scan with
  | error e => simp [advance, hscan] at hr
  | ok found =>
    cases found with
    | none => simp [advance, hscan] at hr
    | some p =>
      rw [advance_of_scan hscan] at hr
      rcases List.mem_append.1 hr with hignored | hparsed
      · rw [Parsed.ignoredRecords] at hignored
        split at hignored
        · cases hignored
        · obtain rfl := List.mem_singleton.1 hignored
          exact Record.mild_debug ..
      · obtain rfl := List.mem_singleton.1 hparsed
        exact Record.mild_debug ..

namespace Engine

theorem calm_moved {e : Engine} (h : e.Calm) : (moved e).Calm :=
  (h.onWorld _).logAll e.world.cursor.mild_advance

theorem calm_fail {e : Engine} (h : e.Calm) (error : ScriptError) : (fail e error).Calm :=
  (h.onWorld _).log (Record.mild_debug ..)

theorem calm_apply {e : Engine} (h : e.Calm) (effect : Effect) :
    (applyWith unheard e effect).Calm := by
  cases effect with
  | jump target path choices =>
    simp only [applyWith, replaceScriptWith, unheard]
    exact ((h.log (Record.mild_debug ..)).log (Record.mild_info ..)).onWorld _
  | background path =>
    simp only [applyWith, unheard]
    exact (h.onWorld _).log (Record.mild_info ..)

/-- What a step does itself logs nothing graver than information. -/
theorem calm_own {e : Engine} (h : e.Calm) : (nextWith unheard e).1.Calm := by
  have hmoved := calm_moved h
  cases e.world.sort with
  | stopped hv =>
    rw [nextWith_of_verdict hv]
    exact h
  | failing hs ho =>
    rw [nextWith_of_error hs ho]
    exact calm_fail hmoved _
  | ending hs ho =>
    rw [nextWith_of_end hs ho]
    exact hmoved.onWorld Player.ended
  | plain hs ho hm =>
    rw [nextWith_of_plain hs ho hm]
    exact hmoved.note fun r hr => by cases hr
  | impossible hs ho he =>
    rw [nextWith_of_unreadable hs ho he]
    exact calm_fail (hmoved.onWorld _) _
  | @possible d effect hs ho he =>
    rw [nextWith_of_effect hs ho he]
    exact calm_apply (hmoved.note fun r hr => by cases hr) effect

theorem calm_announce {e : Engine} (h : e.Calm) (events : List Event) :
    (announce Engine.emit e events).Calm ∧ (announce Engine.emit e events).world = e.world := by
  induction events generalizing e with
  | nil => exact ⟨h, rfl⟩
  | cons event rest ih =>
    have hemit : Engine.emit e event.1 event.2 = e.announced event.1 event.2 :=
      Stage.emit_unheard nextWith h.unheard _ _
    have hrest := ih (h.announced event.1 event.2)
    rw [announce, List.foldl_cons, hemit]
    exact hrest

/-- A step that nobody listens to is that of the player, and logs nothing graver than
information. -/
theorem calm_next {e : Engine} (h : e.Calm) :
    (next e).1.Calm ∧ (next e).1.world = e.world.step.1 ∧ (next e).2 = e.world.step.2 := by
  obtain ⟨hworld, houtcome⟩ := own_next e
  obtain ⟨hcalm, hannounced⟩ := calm_announce (calm_own h) (eventsOf e .next)
  rw [next, nextWith_eq_announce]
  exact ⟨hcalm, hannounced.trans hworld, houtcome⟩

/-- So is one that is taken when the log has been cleared. -/
theorem calm_next_forget {e : Engine} (h : e.Calm) :
    (next e.forget).1.Calm ∧ (next e.forget).1.world = e.world.step.1 ∧
      (next e.forget).2 = e.world.step.2 :=
  calm_next h.forget

end Engine

/-! ## Steps along a script without jumps -/

namespace Player

variable {p : Player}

/-- An element that is no jump is given, and the script goes on just past it. -/
theorem step_of_stream_cons (hs : p.state = .running) (hl : p.cursor.latched = none)
    {found : Parsed} {rest : List Parsed} (hstream : p.cursor.stream.elements = found :: rest)
    (hj : found.element.isJump = false) :
    p.step.2 = .ok (some found.element) ∧ p.step.1.state = .running ∧
      p.step.1.cursor = { p.cursor with offset := found.stop } := by
  have hadvance := Cursor.advance_of_stream_cons hl hstream
  have ho : p.cursor.advance.outcome = .ok (some found.element) := by rw [hadvance]
  by_cases hm : found.element.mark = .directive
  · obtain ⟨d, hd⟩ := Element.eq_directive_of_mark hm
    rw [hd] at ho hj
    cases d with
    | jump path choices => cases hj
    | loadBackground path =>
      rw [step_of_possible hs ho (Engine.effectOf_loadBackground p path), hadvance, hd]
      exact ⟨rfl, hs, rfl⟩
  · rw [step_of_plain hs ho hm, hadvance]
    exact ⟨rfl, hs, rfl⟩

theorem step_of_stream_nil (hs : p.state = .running) (hl : p.cursor.latched = none)
    (hstream : p.cursor.stream.elements = []) : p.step.2 = p.cursor.stream.ending := by
  have ho := Cursor.outcome_of_stream_nil hl hstream
  cases herror : p.cursor.stream.error with
  | none =>
    rw [Stream.ending, herror] at ho ⊢
    rw [step_of_ending hs ho]
  | some error =>
    rw [Stream.ending, herror] at ho ⊢
    rw [step_of_failing hs ho]

end Player

/-- What a command leaves behind, if it comes to an end of its own. -/
def Ending.outcome? : Ending → Option Outcome
  | .done o => some o
  | _ => none

namespace CommandLine

open Engine (next)

section
variable {e : Engine} {threshold n : Nat}

theorem play_of_element {element : Element} (h : (next e.forget).2 = .ok (some element)) :
    play threshold (n + 1) e =
      let after := (next e.forget).1
      let rest := play threshold n after
      ({ status := rest.1.status
         out := (positionText after.world.cursor.position ++ '\t' :: element.describe)
           :: rest.1.out
         err := Record.shown threshold after.records ++ rest.1.err }, rest.2) := by
  rw [play, step]
  cases hnext : next e.forget with
  | mk after outcome =>
    rw [hnext] at h
    obtain rfl : outcome = .ok (some element) := h
    rfl

/-- A stream that is done with ends the run, with its error if it has one. -/
theorem play_of_ending {error : Option ScriptError}
    (h : (next e.forget).2 = Stream.ending { error }) :
    play threshold (n + 1) e =
      ({ status := if error.isSome then 1 else 0
         err := Record.shown threshold (next e.forget).1.records
           ++ (error.map errorLine).toList }, true) := by
  rw [play, step]
  cases hnext : next e.forget with
  | mk after outcome =>
    rw [hnext] at h
    cases error with
    | none =>
      obtain rfl : outcome = .ok none := h
      simp
    | some error =>
      obtain rfl : outcome = .error error := h
      rfl

/-- Playing a script without jumps prints a line for each of its elements, and the error at its end
if there is one. The induction is on the number of steps, which are more than there are elements. -/
theorem play_eq (he : e.Calm) (hs : e.world.state = .running)
    (hl : e.world.cursor.latched = none)
    (hj : ∀ p ∈ e.world.cursor.stream.elements, p.element.isJump = false)
    (hn : e.world.cursor.stream.elements.length < n) :
    ∃ records : List Record, (∀ r ∈ records, r.Mild) ∧
      play threshold n e =
        ({ status := if e.world.cursor.stream.error.isSome then 1 else 0
           out := e.world.cursor.stream.elements.map (elementLine e.world.cursor.text)
           err := Record.shown threshold records
             ++ (e.world.cursor.stream.error.map errorLine).toList }, true) := by
  induction n generalizing e with
  | zero => omega
  | succ n ih =>
    obtain ⟨hcalm, hworld, houtcome⟩ := Engine.calm_next_forget he
    cases hstream : e.world.cursor.stream.elements with
    | nil =>
      rw [Player.step_of_stream_nil hs hl hstream] at houtcome
      refine ⟨_, hcalm.records, ?_⟩
      rw [@play_of_ending _ _ _ e.world.cursor.stream.error houtcome]
      rfl
    | cons p ps =>
      rw [hstream] at hj hn
      obtain ⟨hjump, hrest⟩ := List.forall_mem_cons.1 hj
      obtain ⟨hgives, hrunning, hcursor⟩ := Player.step_of_stream_cons hs hl hstream hjump
      have hafter : (next e.forget).1.world.cursor = { e.world.cursor with offset := p.stop } := by
        rw [hworld, hcursor]
      have hstream' : (next e.forget).1.world.cursor.stream =
          ⟨ps, e.world.cursor.stream.error⟩ := by
        rw [hafter]
        exact Cursor.stream_of_cons hstream
      obtain ⟨records, hmild, hplay⟩ := ih hcalm (by rw [hworld, hrunning])
        (by rw [hafter]; exact hl) (by rw [hstream']; exact hrest)
        (by rw [hstream']; simpa using hn)
      refine ⟨(next e.forget).1.records ++ records,
        List.forall_mem_append.2 ⟨hcalm.records, hmild⟩, ?_⟩
      rw [hstream', hafter] at hplay
      simp only [play_of_element (houtcome.trans hgives), hplay, hafter, Record.shown_append,
        List.append_assoc]
      rfl

end

/-! ## Checks -/

end CommandLine

theorem Text.length_stream_le (source : Text) :
    (source.streamFrom 0).elements.length ≤ source.length := by
  have hlength := length_le_of_tiles (@Text.tiles_spans source 0 _ rfl) (Nat.zero_le _)
  simpa [Text.length_spans] using hlength

/-- A cursor that advances often enough comes to the end of its stream. -/
theorem Cursor.advanceUpTo_of_stream {c : Cursor} (hl : c.latched = none) {n : Nat}
    (hn : c.stream.elements.length < n) :
    (c.advanceUpTo n).elements = c.stream.elements.map Parsed.element ∧
      (c.advanceUpTo n).error = c.stream.error := by
  induction n generalizing c with
  | zero => omega
  | succ n ih =>
    cases hstream : c.stream.elements with
    | nil =>
      have ho := outcome_of_stream_nil hl hstream
      cases herror : c.stream.error with
      | none =>
        rw [Stream.ending, herror] at ho
        simp [advanceUpTo, ho]
      | some error =>
        rw [Stream.ending, herror] at ho
        simp [advanceUpTo, ho]
    | cons p ps =>
      have hadvance := advance_of_stream_cons hl hstream
      have hrest := stream_of_cons hstream
      rw [hstream] at hn
      obtain ⟨helements, herror⟩ := ih (c := { c with offset := p.stop }) hl
        (by rw [hrest]; simpa using hn)
      rw [hrest] at helements herror
      simp only [advanceUpTo, hadvance, helements, herror, List.map_cons, and_self]

/-- A run through a text from its start gives its elements and its error. -/
theorem Cursor.exhaust_ofText (text : Text) (origin : Option Text) :
    (ofText text origin).exhaust.elements = text.elements ∧
      (ofText text origin).exhaust.error = text.error :=
  advanceUpTo_of_stream rfl (Nat.lt_succ_of_le text.length_stream_le)

namespace CommandLine

variable {fs : FileSystem} {config : Config} {script text : Text}

/-- A check of a script gives its number of elements, or its error with the place. -/
theorem check_eq (threshold : Nat)
    (hread : fs.readText (Path.ofText script) config.encoding = .ok text) :
    (check fs config threshold [script]).status = (if text.error.isSome then 1 else 0) ∧
      (check fs config threshold [script]).out =
        [match text.error with
          | none =>
            script ++ ": ok (".toList ++ Text.ofNat text.elements.length ++ " elements)".toList
          | some error => script ++ ':' :: errorPlace error ++ ": ".toList ++ error.message] := by
  obtain ⟨hfound, hfault⟩ := Cursor.exhaust_ofText text (some script)
  simp only [check, checkFile, Cursor.ofFile, hread, List.map_cons, List.map_nil, List.all_cons,
    List.all_nil, Bool.and_true, hfound, hfault]
  cases text.error with
  | none => exact ⟨rfl, rfl⟩
  | some error => exact ⟨rfl, rfl⟩

/-! ## Runs -/

/-- The engine that plays a script which can be read is calm and at the start of the script. -/
theorem openEngine_eq (hread : fs.readText (Path.ofText script) config.encoding = .ok text) :
    ∃ e : Engine, openEngine fs config script = .ok e ∧ e.Calm ∧
      Engine.Fresh e (some (Path.ofText script).toText) text ∧
      e.world.config = config ∧ e.world.files = fs := by
  simp only [openEngine, FileSystem.isPresent_of_readText hread, Engine.ofFile, Cursor.ofFile,
    hread]
  refine ⟨_, rfl, ?_, ⟨rfl, rfl, Bus.only_empty⟩, rfl, rfl⟩
  have hfresh : (Engine.fresh config fs (fun _ path => .error (.missingFile path))
      (.ofText text (some (Path.ofText script).toText))).Calm :=
    ⟨rfl, fun r hr => by cases hr⟩
  exact (hfresh.log (Record.mild_debug ..)).log (Record.mild_debug ..)

/-- A run says at once what the opening of its engine has logged, and then plays. -/
theorem run_of_open {e : Engine} (h : openEngine fs config script = .ok e) (threshold steps : Nat) :
    run fs config threshold steps script =
      let played := play threshold steps e
      let o := { played.1 with err := Record.shown threshold e.records ++ played.1.err }
      if played.2 then .done o else .unfinished o := by
  simp only [run, h]
  rcases play threshold steps e with ⟨o, ended⟩
  cases ended <;> rfl

/-- A run of a script without jumps prints a line for each of its elements. -/
theorem run_eq (threshold : Nat) {steps : Nat}
    (hread : fs.readText (Path.ofText script) config.encoding = .ok text)
    (hjump : ∀ element ∈ text.elements, element.isJump = false)
    (hsteps : text.elements.length < steps) :
    ∃ records : List Record, (∀ r ∈ records, r.Mild) ∧
      run fs config threshold steps script =
        .done { status := if text.error.isSome then 1 else 0
                out := (text.streamFrom 0).elements.map (elementLine text)
                err := Record.shown threshold records ++ (text.error.map errorLine).toList } := by
  obtain ⟨e, hopen, hcalm, ⟨hs, hcursor, -⟩, -⟩ := openEngine_eq hread
  have hstream : e.world.cursor.stream = text.streamFrom 0 := by rw [hcursor]; rfl
  have hlength : (text.streamFrom 0).elements.length = text.elements.length :=
    (List.length_map ..).symm
  obtain ⟨records, hmild, hplay⟩ := @play_eq _ threshold steps hcalm hs
    (by rw [hcursor]) (by rw [hstream]; exact fun p hp => hjump _ (List.mem_map_of_mem hp))
    (by rw [hstream, hlength]; exact hsteps)
  refine ⟨e.records ++ records, List.forall_mem_append.2 ⟨hcalm.records, hmild⟩, ?_⟩
  rw [hstream, hcursor] at hplay
  simp only [run, hopen, hplay, Record.shown_append, List.append_assoc]
  rfl

/-- **A run and a check agree on a script without jumps.** The script can be read, and no jump comes
before its end or its first error. If a check finds it sound, with so many elements, a run prints a
line for each of them and ends well. If a check finds an error, a run prints a line for each of the
elements before it and then the error, with the same message and place, and ends with status one.
There is no third case. Besides the error a run only prints log records, none of them graver than
information, so a threshold above that keeps them back. -/
theorem run_agrees_with_check (threshold : Nat) {steps : Nat}
    (hread : fs.readText (Path.ofText script) config.encoding = .ok text)
    (hjump : ∀ element ∈ text.elements, element.isJump = false)
    (hsteps : text.elements.length < steps) :
    let report := check fs config threshold [script]
    let lines := (text.streamFrom 0).elements.map (elementLine text)
    lines.length = text.elements.length ∧ (∀ line ∈ lines, Text.OneLine line) ∧
    ∃ records : List Record, (∀ r ∈ records, r.Mild) ∧
      (Level.info.rank < threshold → Record.shown threshold records = []) ∧
      (text.error = none ∧ report.status = 0 ∧
          report.out =
            [script ++ ": ok (".toList ++ Text.ofNat text.elements.length ++ " elements)".toList] ∧
          run fs config threshold steps script =
            .done { status := 0, out := lines, err := Record.shown threshold records } ∨
        ∃ error place, text.error = some error ∧ error.LiesAt place ∧ report.status = 1 ∧
          report.out =
            [script ++ ':' :: positionText place ++ ": ".toList ++ error.message] ∧
          run fs config threshold steps script =
            .done { status := 1, out := lines,
                    err := Record.shown threshold records ++ [errorLine error] } ∧
          errorLine error = "error: ".toList ++ (error.message ++
            (" (line ".toList ++ Text.ofNat place.line ++ ", column ".toList
              ++ Text.ofNat place.column ++ [')']) ++ error.contextText)) := by
  intro report lines
  obtain ⟨records, hmild, hrun⟩ := run_eq threshold hread hjump hsteps
  obtain ⟨hstatus, hout⟩ := check_eq threshold hread
  refine ⟨?_, ?_, records, hmild, fun h => Record.shown_of_mild h hmild, ?_⟩
  · show ((text.streamFrom 0).elements.map _).length = ((text.streamFrom 0).elements.map _).length
    rw [List.length_map, List.length_map]
  · intro line hline
    obtain ⟨p, hp, rfl⟩ := List.mem_map.1 hline
    exact oneLine_elementLine hp
  · cases herror : text.error with
    | none =>
      rw [herror] at hstatus hout hrun
      refine .inl ⟨rfl, hstatus, hout, ?_⟩
      rw [hrun, Option.map_none, Option.toList_none, List.append_nil]
      rfl
    | some error =>
      obtain ⟨place, hplace⟩ := place_of_error herror
      rw [herror] at hstatus hout hrun
      refine .inr ⟨error, place, rfl, hplace, hstatus, ?_, hrun, errorLine_eq hplace⟩
      rw [← errorPlace_eq hplace]
      exact hout

/-- A script whose last directive is none. -/
def flawed : Text := "# note\n@loadbg(a.png)\n@warp(x)".toList

def studio : FileSystem :=
  FileSystem.nameless.install (Path.ofText "s.vn".toList) (.file (Utf8.encode flawed))

/-- The two elements before the error are printed, and then the error. -/
theorem run_agrees_with_check_flawed :
    let sound := (flawed.streamFrom 0).elements.map (elementLine flawed)
    (studio.readText (Path.ofText "s.vn".toList) ({} : Config).encoding = .ok flawed ∧
        (∀ element ∈ flawed.elements, element.isJump = false) ∧ flawed.elements.length < 3) ∧
      sound.length = 2 ∧
      ∃ error, (check studio {} Level.warning.rank ["s.vn".toList]).status = 1 ∧
        run studio {} Level.warning.rank 3 "s.vn".toList =
          .done { status := 1, out := sound, err := [errorLine error] } := by
  intro sound
  have helements : flawed.elements = [.comment, .directive (.loadBackground "a.png".toList)] := by
    decide +kernel
  have hread : studio.readText (Path.ofText "s.vn".toList) ({} : Config).encoding = .ok flawed := by
    decide +kernel
  have hjump : ∀ element ∈ flawed.elements, element.isJump = false := by
    rw [helements]
    decide
  have hsteps : flawed.elements.length < 3 := by
    rw [helements]
    decide
  obtain ⟨hlength, -, records, -, hshown, hcases⟩ :=
    run_agrees_with_check Level.warning.rank hread hjump hsteps
  refine ⟨⟨hread, hjump, hsteps⟩, by rw [hlength, helements]; rfl, ?_⟩
  rcases hcases with ⟨hsound, -⟩ | ⟨error, -, -, -, hstatus, -, hrun, -⟩
  · have herror : flawed.error ≠ none := by decide +kernel
    exact absurd hsound herror
  · rw [hshown (by decide), List.nil_append] at hrun
    exact ⟨error, hstatus, hrun⟩

/-- Whoever asks for information is given some, however sound the script is: a run that ends well
may write to the second stream. -/
theorem run_informs_operator :
    let backdrop := "@loadbg(a.png)\n".toList
    let theatre := FileSystem.nameless.install (Path.ofText "s.vn".toList)
      (.file (Utf8.encode backdrop))
    let ask (command : String) :=
      let args := ["--log-level", "INFO", command, "s.vn"].map String.toList
      (program theatre Json.usualRoom 3 args).outcome?
    ask "check" = some { status := 0, out := ["s.vn: ok (1 elements)".toList] } ∧
      ask "run" =
        some { status := 0
               out := ["1:15\t@loadbg(a.png)".toList]
               err := ["INFO vnscript.script.directives: background -> a.png".toList] } := by
  decide +kernel

end CommandLine

end Playscript
