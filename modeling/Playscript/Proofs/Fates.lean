import Playscript.Proofs.Acceptance
import Playscript.Proofs.Commands

/-!
# Fates of the program

Arguments that make sense lead to a status, unless the playback has been cut off or a refusal of the
file system has got away. The program takes care of what is wrong with a script and of what is wrong
in a configuration, but not of a configuration that cannot be come at, that is a directory or closed
or that is nested deeper than there is room for, nor of a path to the script it is to run that
cannot be followed. A configuration that escapes half of a surrogate pair is left aside.

* `FileSystem.unreachable_or_missing_or_holds`: what can be at the end of a path.
* `Config.outOfReach_of_load`, `Config.load_of_outOfReach`: the configurations whose error gets
  away.
* `CommandLine.play_of_mem_ending`, `CommandLine.play_of_elements`: how a play ends.
* `Request.Meets`: the fates of requests, case by case.
* `program_fate_iff`: the fate of the program.
-/

namespace Playscript

namespace FileSystem

/-- The path cannot be followed: some name of it is too long, or the whole of it, or it leads
through a directory that is closed. -/
def Unreachable (fs : FileSystem) (path : Path) : Prop :=
  hasNul path = false ∧
    (fs.status path = .error .nameTooLong ∨ fs.status path = .error .denied)

/-- The path leads nowhere. -/
def Missing (fs : FileSystem) (path : Path) : Prop :=
  ¬fs.Unreachable path ∧ ∀ entry, ¬fs.Holds path entry

variable {fs : FileSystem} {path : Path} {entry : Entry}

theorem unreachable_or_missing_or_holds (fs : FileSystem) (path : Path) :
    fs.Unreachable path ∨ fs.Missing path ∨ ∃ entry, fs.Holds path entry := by
  by_cases hlost : fs.Unreachable path
  · exact .inl hlost
  · by_cases hheld : ∃ entry, fs.Holds path entry
    · exact .inr (.inr hheld)
    · exact .inr (.inl ⟨hlost, fun entry h => hheld ⟨entry, h⟩⟩)

theorem Unreachable.isPresent (h : fs.Unreachable path) :
    ∃ why, fs.isPresent path = .error (.refused why path) := by
  obtain ⟨hnul, hlong | hdenied⟩ := h
  · exact ⟨.nameTooLong, by rw [FileSystem.isPresent, if_neg (by simp [hnul]), hlong]⟩
  · exact ⟨.denied, by rw [FileSystem.isPresent, if_neg (by simp [hnul]), hdenied]⟩

theorem Holds.isPresent (h : fs.Holds path entry) : fs.isPresent path = .ok true := by
  rw [FileSystem.isPresent, if_neg (by simp [h.1]), h.2]
  rfl

theorem Missing.isPresent (h : fs.Missing path) : fs.isPresent path = .ok false := by
  rw [FileSystem.isPresent]
  cases hnul : hasNul path with
  | true => rfl
  | false =>
    cases hstatus : fs.status path with
    | error why =>
      cases why with
      | nameTooLong => exact absurd ⟨hnul, .inl hstatus⟩ h.1
      | denied => exact absurd ⟨hnul, .inr hstatus⟩ h.1
      | _ => rfl
    | ok found =>
      cases found with
      | none => rfl
      | some entry => exact absurd ⟨hnul, hstatus⟩ (h.2 entry)

theorem Holds.read_directory (h : fs.Holds path .directory) :
    ∃ why, fs.read path = .error (.refused why path) := by
  obtain ⟨place, hlocate, hentry⟩ := h.locate
  by_cases hclosed : fs.Closed path
  · exact ⟨.denied, h.read_of_closed hclosed⟩
  · have hopen : place ∉ fs.closed := fun hin => hclosed ⟨place, hlocate, hin⟩
    exact ⟨.isDirectory, by simp [FileSystem.read, h.1, hlocate, hentry, hopen]⟩

theorem holds_of_read {bytes : List UInt8} (h : fs.read path = .ok bytes) :
    fs.Holds path (.file bytes) := by
  obtain ⟨hnul, place, hlocate, hentry, -⟩ := read_eq_ok_iff.1 h
  exact ⟨hnul, by rw [status, hlocate]; exact congrArg _ hentry⟩

end FileSystem

/-! ## Configurations out of reach -/

namespace Config

variable {fs : FileSystem} {room : Nat} {path : Path}

/-- What stands in the way of a configuration without being wrong in it. -/
inductive OutOfReach (fs : FileSystem) (room : Nat) (path : Path) : Prop
  | unreachable (h : fs.Unreachable path)
  | closed {entry : Entry} (h : fs.Holds path entry) (hc : fs.Closed path)
  | directory (h : fs.Holds path .directory)
  | tooDeep {bytes : List UInt8} {text : Text} {error : Json.ReadError}
      (h : fs.read path = .ok bytes) (hu : Utf8.read bytes = .ok text)
      (hj : Json.read room text.unifyBreaks = .error error) (hd : error.problem.isTooDeep = true)

/-- The configuration can be read up to half of a surrogate pair that stands alone. -/
def Halved (fs : FileSystem) (room : Nat) (path : Path) : Prop :=
  ∃ bytes text error, fs.read path = .ok bytes ∧ Utf8.read bytes = .ok text ∧
    Json.read room text.unifyBreaks = .error error ∧ error.problem = .loneHalf

theorem isCaught_of_make {codecs : Registry} {s : Settings} {error : ConfigError}
    (h : make codecs s = .error error) : error.isCaught = true := by
  rcases make_cases codecs s with ⟨found, hfound, hcaught⟩ | ⟨c, codec, hmade, -⟩
  · rw [hfound] at h
    obtain rfl := Except.error.inj h
    exact hcaught
  · rw [hmade] at h
    cases h

/-- A configuration that can be read gets away for its nesting only, or else it is halved. -/
theorem tooDeep_of_load {bytes : List UInt8} {error : ConfigError}
    (hread : fs.read path = .ok bytes) (hwhole : ¬Halved fs room path)
    (h : load fs room (some path) = .error error) (hcaught : error.isCaught = false) :
    ∃ text reason, Utf8.read bytes = .ok text ∧ Json.read room text.unifyBreaks = .error reason ∧
      reason.problem.isTooDeep = true := by
  simp only [load, Settings.load, (FileSystem.holds_of_read hread).isPresent, hread] at h
  cases hutf : Utf8.read bytes with
  | error u =>
    simp only [hutf] at h
    obtain rfl := Except.error.inj h
    cases hcaught
  | ok text =>
    simp only [hutf] at h
    cases hjson : Json.read room text.unifyBreaks with
    | error reason =>
      simp only [hjson] at h
      obtain rfl := Except.error.inj h
      have hfull : reason.problem ≠ .loneHalf := fun hhalf =>
        hwhole ⟨bytes, text, reason, hread, hutf, hjson, hhalf⟩
      refine ⟨text, reason, rfl, hjson, ?_⟩
      simpa [ConfigError.isCaught, Json.Problem.isBeyond, hfull] using hcaught
    | ok value =>
      simp only [hjson] at h
      cases value with
      | obj fields =>
        rw [isCaught_of_make h] at hcaught
        cases hcaught
      | _ =>
        obtain rfl := Except.error.inj h
        cases hcaught

/-- An error that gets away is one of a configuration out of reach. -/
theorem outOfReach_of_load {path : Option Path} {error : ConfigError}
    (hwhole : ∀ p, path = some p → ¬Halved fs room p) (h : load fs room path = .error error)
    (hcaught : error.isCaught = false) : ∃ p, path = some p ∧ OutOfReach fs room p := by
  have hnever : ∀ s, make fs.codecs s ≠ .error error := by
    intro s hs
    rw [isCaught_of_make hs] at hcaught
    cases hcaught
  cases path with
  | none => exact absurd h (hnever Settings.default)
  | some p =>
    refine ⟨p, rfl, ?_⟩
    rcases fs.unreachable_or_missing_or_holds p with hlost | hmissing | ⟨entry, hheld⟩
    · exact .unreachable hlost
    · simp only [load, Settings.load, hmissing.isPresent] at h
      exact absurd h (hnever _)
    · by_cases hclosed : fs.Closed p
      · exact .closed hheld hclosed
      · cases entry with
        | directory => exact .directory hheld
        | file bytes =>
          have hread : fs.read p = .ok bytes := hheld.read_of_open hclosed
          obtain ⟨text, reason, hutf, hjson, hdeep⟩ :=
            tooDeep_of_load hread (hwhole p rfl) h hcaught
          exact .tooDeep hread hutf hjson hdeep

/-- What can be loaded has been read as a whole. -/
theorem not_halved_of_load {config : Config} (h : load fs room (some path) = .ok config) :
    ¬Halved fs room path := by
  rintro ⟨bytes, text, error, hread, hutf, hjson, -⟩
  simp only [load, Settings.load, (FileSystem.holds_of_read hread).isPresent, hread, hutf,
    hjson] at h
  cases h

theorem load_of_outOfReach (h : OutOfReach fs room path) :
    ∃ error, load fs room (some path) = .error error ∧ error.isCaught = false := by
  cases h with
  | unreachable h =>
    obtain ⟨why, hpresent⟩ := h.isPresent
    exact ⟨.file (.refused why path), by simp only [load, Settings.load, hpresent], rfl⟩
  | closed h hc =>
    refine ⟨.file (.refused .denied path), ?_, rfl⟩
    simp only [load, Settings.load, h.isPresent, h.read_of_closed hc]
  | directory h =>
    obtain ⟨why, hread⟩ := h.read_directory
    exact ⟨.file (.refused why path), by simp only [load, Settings.load, h.isPresent, hread], rfl⟩
  | @tooDeep bytes text error h hu hj hd =>
    refine ⟨.notJson error, ?_, by simp [ConfigError.isCaught, Json.Problem.isBeyond, hd]⟩
    simp only [load, Settings.load, (FileSystem.holds_of_read h).isPresent, h, hu, hj]

end Config

/-! ## How a play ends -/

theorem Engine.Outcome.stops_ending (error : Option ScriptError) :
    Engine.Outcome.Stops (Stream.ending { error }) := by
  cases error <;> simp [Stream.ending]

theorem Engine.Outcome.eq_ending_of_stops {o : Engine.Outcome} (h : o.Stops) :
    ∃ error, o = Stream.ending { error } := by
  cases o with
  | error error => exact ⟨some error, rfl⟩
  | ok found =>
    cases found with
    | none => exact ⟨none, rfl⟩
    | some element => exact absurd rfl (h element)

/-- How the program ends: with a status, with an error that nothing takes care of, or, if the
playback is cut off, not at all. -/
inductive Fate
  | exits (status : Nat)
  | escapes
  | goesOn
  deriving DecidableEq, Repr

def Ending.fate : Ending → Fate
  | .usage u => .exits u.status
  | .done o => .exits o.status
  | .escaped _ => .escapes
  | .unfinished _ => .goesOn

namespace CommandLine

open Engine (next)

section
variable {e : Engine} {level n : Nat}

/-- A play that comes to its end says so, and whether that was an error. The induction is on the
number of steps; nothing comes after the first outcome without an element. -/
theorem play_of_mem_ending (he : e.Calm) {error : Option ScriptError}
    (hr : (e.world.outcomes n).Pairwise fun a b => a.Stops → b = a)
    (hm : Stream.ending { error } ∈ e.world.outcomes n) :
    (play level n e).2 = true ∧ (play level n e).1.status = if error.isSome then 1 else 0 := by
  induction n generalizing e with
  | zero => cases hm
  | succ n ih =>
    obtain ⟨hcalm, hworld, houtcome⟩ := Engine.calm_next_forget he
    rw [Player.outcomes] at hr hm
    obtain ⟨hlast, hrest⟩ := List.pairwise_cons.1 hr
    by_cases hgives : ∃ element, e.world.step.2 = .ok (some element)
    · obtain ⟨element, ho⟩ := hgives
      have hm' : Stream.ending { error } ∈ e.world.step.1.outcomes n := by
        rcases List.mem_cons.1 hm with heq | hm'
        · exact absurd (heq.trans ho) (Engine.Outcome.stops_ending error element)
        · exact hm'
      rw [← hworld] at hrest hm'
      rw [play_of_element (houtcome.trans ho)]
      exact ih hcalm hrest hm'
    · have hstops : e.world.step.2.Stops := fun element ho => hgives ⟨element, ho⟩
      have hending : e.world.step.2 = Stream.ending { error } := by
        rcases List.mem_cons.1 hm with heq | hm'
        · exact heq.symm
        · exact (hlast _ hm' hstops).symm
      rw [play_of_ending (houtcome.trans hending)]
      exact ⟨rfl, rfl⟩

/-- A play that gives elements only has not come to its end. -/
theorem play_of_elements (he : e.Calm) (h : ∀ o ∈ e.world.outcomes n, ¬o.Stops) :
    (play level n e).2 = false := by
  induction n generalizing e with
  | zero => rfl
  | succ n ih =>
    obtain ⟨hcalm, hworld, houtcome⟩ := Engine.calm_next_forget he
    rw [Player.outcomes] at h
    obtain ⟨hfirst, hrest⟩ := List.forall_mem_cons.1 h
    have hgives : ∃ element, e.world.step.2 = .ok (some element) := by
      by_contra hnone
      exact hfirst fun element ho => hnone ⟨element, ho⟩
    obtain ⟨element, ho⟩ := hgives
    rw [← hworld] at hrest
    rw [play_of_element (houtcome.trans ho)]
    exact ih hcalm hrest

theorem fate_run_of_open {fs : FileSystem} {config : Config} {script : Text}
    (h : openEngine fs config script = .ok e) (level steps : Nat) :
    (run fs config level steps script).fate =
      if (play level steps e).2 then .exits (play level steps e).1.status else .goesOn := by
  rw [run_of_open h]
  rcases play level steps e with ⟨o, ended⟩
  cases ended <;> rfl

end

section
variable {fs : FileSystem} {config : Config} {script text : Text} {level steps : Nat}

/-- The fate of a run of a script that can be read is that of the playback. -/
theorem fate_run_of_mem_ending
    (hread : fs.readText (Path.ofText script) config.encoding = .ok text)
    {error : Option ScriptError} (hm : Stream.ending { error } ∈
      playback config fs steps (some (Path.ofText script).toText) text) :
    (run fs config level steps script).fate = .exits (if error.isSome then 1 else 0) := by
  obtain ⟨e, hopen, hcalm, hfresh, rfl, rfl⟩ := openEngine_eq hread
  rw [← hfresh.outcomes_eq] at hm
  have hrepeats : (e.world.outcomes steps).Pairwise fun a b => a.Stops → b = a := by
    rw [hfresh.outcomes_eq]
    exact playElements_repeats ..
  have hplay : (play level steps e).2 = true ∧
      (play level steps e).1.status = if error.isSome then 1 else 0 :=
    play_of_mem_ending hcalm hrepeats hm
  rw [fate_run_of_open hopen, if_pos hplay.1, hplay.2]

theorem fate_run_of_elements
    (hread : fs.readText (Path.ofText script) config.encoding = .ok text)
    (h : ∀ o ∈ playback config fs steps (some (Path.ofText script).toText) text, ¬o.Stops) :
    (run fs config level steps script).fate = .goesOn := by
  obtain ⟨e, hopen, hcalm, hfresh, rfl, rfl⟩ := openEngine_eq hread
  rw [← hfresh.outcomes_eq] at h
  have hcut : (play level steps e).2 = false := play_of_elements hcalm h
  rw [fate_run_of_open hopen, hcut]
  rfl

/-! ## How a check ends -/

/-- The script can be read and parsed to its end. -/
def Sound (fs : FileSystem) (config : Config) (file : Text) : Prop :=
  ∃ text, fs.readText (Path.ofText file) config.encoding = .ok text ∧ text.error = none

theorem checkFile_iff_sound {file : Text} :
    (checkFile fs config.encoding file).1 = true ↔ Sound fs config file := by
  cases hread : fs.readText (Path.ofText file) config.encoding with
  | error reason => simp [checkFile, Cursor.ofFile, hread, Sound]
  | ok text =>
    have herror := (Cursor.exhaust_ofText text (some file)).2
    simp only [checkFile, Cursor.ofFile, hread, herror, Sound, Except.ok.injEq,
      exists_eq_left']
    cases text.error <;> simp

theorem all_checkFile_iff {files : List Text} :
    (files.map (checkFile fs config.encoding)).all (·.1) = true ↔
      ∀ file ∈ files, Sound fs config file := by
  simp [checkFile_iff_sound]

theorem status_check_of_sound {files : List Text} (h : ∀ file ∈ files, Sound fs config file) :
    (check fs config level files).status = 0 :=
  if_pos (all_checkFile_iff.2 h)

theorem status_check_of_faulty {files : List Text} {file : Text} (hf : file ∈ files)
    (h : ¬Sound fs config file) : (check fs config level files).status = 1 :=
  if_neg fun hall => h (all_checkFile_iff.1 hall file hf)

end

end CommandLine

/-! ## The fates of requests -/

namespace Request

open CommandLine (Sound threshold program run check fate_run_of_mem_ending fate_run_of_elements
  status_check_of_sound status_check_of_faulty)

variable {fs : FileSystem} {room steps : Nat} {r : Request} {config : Config} {level : Nat}

/-- The configuration is good, and so is the threshold. -/
structure Settles (r : Request) (fs : FileSystem) (room : Nat) (config : Config) (level : Nat) :
    Prop where
  loads : Config.load fs room (r.config.map Path.ofText) = .ok config
  ranks : threshold config r.logLevel = .ok level

/-- What becomes of a request, by what is wrong with its configuration, its threshold or its
scripts. -/
inductive Meets (fs : FileSystem) (room steps : Nat) (r : Request) : Fate → Prop
  | configOutOfReach {path : Text} (hp : r.config = some path)
      (h : Config.OutOfReach fs room (Path.ofText path)) : Meets fs room steps r .escapes
  | badConfig {error : ConfigError}
      (h : Config.load fs room (r.config.map Path.ofText) = .error error)
      (hc : error.isCaught = true) : Meets fs room steps r (.exits 2)
  | badLevel {config : Config} {error : ConfigError}
      (h : Config.load fs room (r.config.map Path.ofText) = .ok config)
      (hl : threshold config r.logLevel = .error error) : Meets fs room steps r (.exits 2)
  | scriptOutOfReach {config : Config} {level : Nat} {script : Text}
      (hs : r.Settles fs room config level) (hr : r.command = .run script)
      (h : fs.Unreachable (Path.ofText script)) : Meets fs room steps r .escapes
  | missing {config : Config} {level : Nat} {script : Text} (hs : r.Settles fs room config level)
      (hr : r.command = .run script) (h : fs.Missing (Path.ofText script)) :
      Meets fs room steps r (.exits 2)
  | unreadable {config : Config} {level : Nat} {script : Text} {entry : Entry} {reason : Reason}
      (hs : r.Settles fs room config level) (hr : r.command = .run script)
      (hh : fs.Holds (Path.ofText script) entry)
      (h : fs.readText (Path.ofText script) config.encoding = .error reason) :
      Meets fs room steps r (.exits 1)
  | failed {config : Config} {level : Nat} {script text : Text} {error : ScriptError}
      (hs : r.Settles fs room config level) (hr : r.command = .run script)
      (h : fs.readText (Path.ofText script) config.encoding = .ok text)
      (hm : .error error ∈ playback config fs steps (some (Path.ofText script).toText) text) :
      Meets fs room steps r (.exits 1)
  | played {config : Config} {level : Nat} {script text : Text}
      (hs : r.Settles fs room config level) (hr : r.command = .run script)
      (h : fs.readText (Path.ofText script) config.encoding = .ok text)
      (hm : .ok none ∈ playback config fs steps (some (Path.ofText script).toText) text) :
      Meets fs room steps r (.exits 0)
  | cutOff {config : Config} {level : Nat} {script text : Text}
      (hs : r.Settles fs room config level) (hr : r.command = .run script)
      (h : fs.readText (Path.ofText script) config.encoding = .ok text)
      (hm : ∀ o ∈ playback config fs steps (some (Path.ofText script).toText) text, ¬o.Stops) :
      Meets fs room steps r .goesOn
  | faulty {config : Config} {level : Nat} {files : List Text} {file : Text}
      (hs : r.Settles fs room config level) (hr : r.command = .check files) (hf : file ∈ files)
      (h : ¬Sound fs config file) : Meets fs room steps r (.exits 1)
  | sound {config : Config} {level : Nat} {files : List Text} (hs : r.Settles fs room config level)
      (hr : r.command = .check files) (h : ∀ file ∈ files, Sound fs config file) :
      Meets fs room steps r (.exits 0)

/-- An error gets away: that of a configuration out of reach, or that of a path to the script to be
run that cannot be followed. -/
def Escapes (fs : FileSystem) (room : Nat) (r : Request) : Prop :=
  (∃ path, r.config = some path ∧ Config.OutOfReach fs room (Path.ofText path)) ∨
    ∃ config level script, r.Settles fs room config level ∧ r.command = .run script ∧
      fs.Unreachable (Path.ofText script)

/-- The configuration does not escape half of a surrogate pair. -/
def Whole (fs : FileSystem) (room : Nat) (r : Request) : Prop :=
  ∀ path, r.config = some path → ¬Config.Halved fs room (Path.ofText path)

/-- There is a case for every request whose configuration is whole. -/
theorem exists_meets (hwhole : r.Whole fs room) (steps : Nat) :
    ∃ fate, r.Meets fs room steps fate := by
  cases hload : Config.load fs room (r.config.map Path.ofText) with
  | error error =>
    cases hcaught : error.isCaught with
    | true => exact ⟨_, .badConfig hload hcaught⟩
    | false =>
      have hwhole' : ∀ p, r.config.map Path.ofText = some p → ¬Config.Halved fs room p := by
        intro p hp
        obtain ⟨path, hpath, rfl⟩ := Option.map_eq_some_iff.1 hp
        exact hwhole path hpath
      obtain ⟨p, hp, hreach⟩ := Config.outOfReach_of_load hwhole' hload hcaught
      obtain ⟨path, hpath, rfl⟩ := Option.map_eq_some_iff.1 hp
      exact ⟨_, .configOutOfReach hpath hreach⟩
  | ok config =>
    cases hlevel : threshold config r.logLevel with
    | error error => exact ⟨_, .badLevel hload hlevel⟩
    | ok level =>
      have hs : r.Settles fs room config level := ⟨hload, hlevel⟩
      cases hr : r.command with
      | check files =>
        by_cases hsound : ∀ file ∈ files, Sound fs config file
        · exact ⟨_, .sound hs hr hsound⟩
        · obtain ⟨file, hfile, hfaulty⟩ : ∃ file ∈ files, ¬Sound fs config file := by
            simpa using hsound
          exact ⟨_, .faulty hs hr hfile hfaulty⟩
      | run script =>
        rcases fs.unreachable_or_missing_or_holds (Path.ofText script) with
          hlost | hmissing | ⟨entry, hheld⟩
        · exact ⟨_, .scriptOutOfReach hs hr hlost⟩
        · exact ⟨_, .missing hs hr hmissing⟩
        · cases hread : fs.readText (Path.ofText script) config.encoding with
          | error reason => exact ⟨_, .unreadable hs hr hheld hread⟩
          | ok text =>
            by_cases hcut : ∀ o ∈ playback config fs steps (some (Path.ofText script).toText) text,
                ¬o.Stops
            · exact ⟨_, .cutOff hs hr hread hcut⟩
            · obtain ⟨o, hm, hstops⟩ : ∃ o ∈ playback config fs steps
                  (some (Path.ofText script).toText) text, o.Stops := by simpa using hcut
              obtain ⟨error, rfl⟩ := Engine.Outcome.eq_ending_of_stops hstops
              cases error with
              | none => exact ⟨_, .played hs hr hread hm⟩
              | some error => exact ⟨_, .failed hs hr hread hm⟩

theorem program_of_settles {args : List Text} (ha : Request.read args = .ok r)
    (hs : r.Settles fs room config level) :
    program fs room steps args =
      match r.command with
      | .run script => run fs config level steps script
      | .check files => .done (check fs config level files) := by
  cases hr : r.command <;> simp only [program, ha, CommandLine.settle, hs.loads, hs.ranks, hr]

/-- The program bears every case out. -/
theorem fate_of_meets {args : List Text} (ha : Request.read args = .ok r) {fate : Fate}
    (h : r.Meets fs room steps fate) : (program fs room steps args).fate = fate := by
  cases h with
  | @configOutOfReach path hp h =>
    obtain ⟨error, hload, hcaught⟩ := Config.load_of_outOfReach h
    simp [program, ha, CommandLine.settle, hp, hload, CommandLine.badConfig, hcaught, Ending.fate]
  | badConfig h hc =>
    simp [program, ha, CommandLine.settle, h, CommandLine.badConfig, hc, Ending.fate]
  | badLevel h hl => simp [program, ha, CommandLine.settle, h, hl, Ending.fate]
  | scriptOutOfReach hs hr h =>
    obtain ⟨why, hpresent⟩ := h.isPresent
    simp [program_of_settles ha hs, hr, run, CommandLine.openEngine, hpresent, Ending.fate]
  | missing hs hr h =>
    simp [program_of_settles ha hs, hr, run, CommandLine.openEngine, h.isPresent, Ending.fate]
  | unreadable hs hr hh h =>
    simp [program_of_settles ha hs, hr, run, CommandLine.openEngine, hh.isPresent, Engine.ofFile,
      Cursor.ofFile, h, Ending.fate]
  | @failed config level script text error hs hr h hm =>
    have hm' : Stream.ending { error := some error } ∈
      playback config fs steps (some (Path.ofText script).toText) text := hm
    simp only [program_of_settles ha hs, hr]
    exact fate_run_of_mem_ending h hm'
  | @played config level script text hs hr h hm =>
    have hm' : Stream.ending { error := none } ∈
      playback config fs steps (some (Path.ofText script).toText) text := hm
    simp only [program_of_settles ha hs, hr]
    exact fate_run_of_mem_ending h hm'
  | cutOff hs hr h hm =>
    simp only [program_of_settles ha hs, hr]
    exact fate_run_of_elements h hm
  | faulty hs hr hf h =>
    simp only [program_of_settles ha hs, hr, Ending.fate, status_check_of_faulty hf h]
  | sound hs hr h =>
    simp only [program_of_settles ha hs, hr, Ending.fate, status_check_of_sound h]

theorem meets_escapes_iff : r.Meets fs room steps .escapes ↔ r.Escapes fs room := by
  constructor
  · intro h
    cases h with
    | configOutOfReach hp h => exact .inl ⟨_, hp, h⟩
    | scriptOutOfReach hs hr h => exact .inr ⟨_, _, _, hs, hr, h⟩
  · rintro (⟨path, hp, h⟩ | ⟨config, level, script, hs, hr, h⟩)
    · exact .configOutOfReach hp h
    · exact .scriptOutOfReach hs hr h

end Request

/-- **The fate of the program.** Arguments that make sense ask for something, and one case of what
may become of that applies: the program ends with status two if the configuration or the threshold
is bad or the script to be run is missing, with status one if a script cannot be read, parsed or
played to its end, and with status zero otherwise; but an error gets away, just if the configuration
is out of reach or, all else being good, the path to the script to be run cannot be followed. This
holds whatever the codecs of the system and the room for nesting, of configurations that do not
escape half of a surrogate pair. -/
theorem program_fate_iff {args : List Text} {r : Request} (ha : Request.read args = .ok r)
    {fs : FileSystem} {room : Nat} (hwhole : r.Whole fs room) (steps : Nat) :
    (∀ fate, (CommandLine.program fs room steps args).fate = fate ↔ r.Meets fs room steps fate) ∧
      ((CommandLine.program fs room steps args).fate = .escapes ↔ r.Escapes fs room) ∧
      ∀ status, (CommandLine.program fs room steps args).fate = .exits status → status ≤ 2 := by
  have hfate : ∀ fate,
      (CommandLine.program fs room steps args).fate = fate ↔ r.Meets fs room steps fate := by
    intro fate
    constructor
    · rintro rfl
      obtain ⟨fate, hmeets⟩ := Request.exists_meets hwhole steps
      rwa [Request.fate_of_meets ha hmeets]
    · exact Request.fate_of_meets ha
  refine ⟨hfate, (hfate _).trans Request.meets_escapes_iff, fun status hstatus => ?_⟩
  have hmeets := (hfate _).1 hstatus
  cases hmeets <;> decide

/-- A configuration, and a script that breaks off at its second element. -/
def workshop : FileSystem :=
  (FileSystem.nameless.install (Path.ofText "c.json".toList)
    (.file (Utf8.encode "\x7b\"logging\": \x7b\"level\": \"error\"\x7d\x7d".toList))).install
    (Path.ofText "s.vn".toList) (.file (Utf8.encode "[A] hi\n@warp(x)".toList))

theorem program_fate_iff_workshop :
    let args := ["--config", "c.json", "run", "s.vn"].map String.toList
    let r : Request := { config := some "c.json".toList, command := .run "s.vn".toList }
    Request.read args = .ok r ∧ r.Whole workshop 2 ∧
      (CommandLine.program workshop 2 3 args).fate = .exits 1 ∧ r.Meets workshop 2 3 (.exits 1) ∧
      ¬r.Escapes workshop 2 := by
  intro args r
  have hread : Request.read args = .ok r := by decide +kernel
  have hwhole : r.Whole workshop 2 := by
    rintro path ⟨⟩
    let place := Path.ofText "c.json".toList
    have hloads : (Config.load workshop 2 (some place)).toOption.isSome := by decide +kernel
    cases hload : Config.load workshop 2 (some place) with
    | error error =>
      rw [hload] at hloads
      cases hloads
    | ok config => exact Config.not_halved_of_load hload
  have hstatus : (CommandLine.program workshop 2 3 args).fate = .exits 1 := by decide +kernel
  obtain ⟨hfate, hescapes, -⟩ := program_fate_iff hread hwhole 3
  refine ⟨hread, hwhole, hstatus, (hfate _).1 hstatus, fun h => ?_⟩
  rw [hescapes.2 h] at hstatus
  cases hstatus

/-- A directory in place of the configuration, a configuration that is closed, and a script with a
name of 256 characters: nothing takes care of any of them. -/
theorem refusals_escape :
    let named := FileSystem.nameless.install (Path.ofText "conf".toList) .directory
    let locked := { workshop with closed := [workshop.here ++ ["c.json".toList]] }
    let long := List.replicate 256 'n'
    (CommandLine.program named 2 3 (["--config", "conf", "run", "s.vn"].map String.toList)).fate =
        .escapes ∧
      (CommandLine.program locked 2 3
        (["--config", "c.json", "run", "s.vn"].map String.toList)).fate = .escapes ∧
      (CommandLine.program named 2 3 ["run".toList, long]).fate = .escapes := by
  decide +kernel

end Playscript
