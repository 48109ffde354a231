import Mathlib.Data.List.Dedup
import Mathlib.Data.List.Perm.Subperm
import Playscript.Proofs.Runs

/-!
# Openings

Which files a play opens, and which texts it enters. A path opens the file at the place that it
leads to, however it is spelled. Where paths do not depend on the script that names them, a player
goes on from a place of a text in the same way, wherever that text came from.

* `opened?`, `regular`: the file that is opened at a path, and all the files that there are.
* `readText_congr`: two paths to one file read the same.
* `footprints`: what the steps of a player or of a session leave behind.
* `Abreast.step`, `Abreast.footprints`: players at the same place of the same text leave the same.
* `footprints_session`: the footprints of a session are those of a run.
-/

namespace Playscript

open Engine (effectOf resolvePath openScript)

/-! ## Files -/

def Entry.isFile : Entry → Bool
  | .file _ => true
  | .directory => false

namespace FileSystem

/-- The regular file that is opened when a path is read. One that is closed is not, and the name of
an encoding with a NUL in it is turned down before that. -/
def opened? (fs : FileSystem) (path : Path) (encoding : Text) : Option Place :=
  if encoding.contains '\x00' || hasNul path then none
  else (fs.locate path).toOption.filter fun place =>
    (fs.entry? place).any Entry.isFile && !fs.closed.contains place

/-- The regular files, each by its place. -/
def regular (fs : FileSystem) : List Place :=
  fs.entries.keys.dedup.filter fun place => (fs.entry? place).any Entry.isFile

variable {fs : FileSystem} {path other : Path} {encoding : Text} {place : Place}

theorem any_isFile {entry : Option Entry} (h : entry.any Entry.isFile = true) :
    ∃ bytes, entry = some (.file bytes) := by
  rcases entry with _ | ⟨bytes⟩ | _
  · cases h
  · exact ⟨bytes, rfl⟩
  · cases h

theorem mem_regular : place ∈ fs.regular ↔ ∃ bytes, fs.entry? place = some (.file bytes) := by
  rw [regular, List.mem_filter, List.mem_dedup]
  constructor
  · rintro ⟨-, hfile⟩
    exact any_isFile hfile
  · rintro ⟨bytes, h⟩
    refine ⟨?_, by rw [h]; rfl⟩
    by_contra hn
    have hroot : place ≠ [] := by
      rintro rfl
      simp [ entry?] at h
    rw [ entry?, if_neg hroot, (Table.find?_eq_none_iff ..).2 hn] at h
    cases h

/-- No more places than there are regular files can be theirs, if each comes once. -/
theorem length_le_regular {places : List Place} (hn : places.Nodup)
    (h : ∀ place ∈ places, place ∈ fs.regular) : places.length ≤ fs.regular.length :=
  (hn.subperm h).length_le

/-- What is opened lies at the place that the path leads to. -/
theorem locate_of_opened (h : fs.opened? path encoding = some place) :
    fs.locate path = .ok place := by
  unfold opened? at h
  split at h
  · cases h
  · obtain ⟨hplace, -⟩ := Option.filter_eq_some_iff.1 h
    cases hl : fs.locate path with
    | error why => simp [hl, Except.toOption] at hplace
    | ok found =>
      simp only [hl, Except.toOption, Option.some.injEq] at hplace
      rw [hplace]

theorem entry_of_opened (h : fs.opened? path encoding = some place) :
    encoding.contains '\x00' = false ∧
      ∃ bytes, fs.entry? place = some (.file bytes) ∧ fs.read path = .ok bytes := by
  have hlocate := locate_of_opened h
  unfold opened? at h
  split at h
  · cases h
  · rename_i hnul
    simp only [Bool.or_eq_true, not_or, Bool.not_eq_true] at hnul
    obtain ⟨-, hfile⟩ := Option.filter_eq_some_iff.1 h
    simp only [Bool.and_eq_true, Bool.not_eq_true', List.contains_eq_mem,
      decide_eq_false_iff_not] at hfile
    obtain ⟨bytes, hentry⟩ := any_isFile hfile.1
    exact ⟨hnul.1, bytes, hentry, read_eq_ok_iff.2 ⟨hnul.2, place, hlocate, hentry, hfile.2⟩⟩

theorem mem_regular_of_opened (h : fs.opened? path encoding = some place) :
    place ∈ fs.regular := by
  obtain ⟨-, bytes, hentry, -⟩ := entry_of_opened h
  exact mem_regular.2 ⟨bytes, hentry⟩

/-- Two paths that open the same file read the same. -/
theorem readText_congr (h : fs.opened? path encoding = some place)
    (h' : fs.opened? other encoding = some place) :
    fs.readText path encoding = fs.readText other encoding := by
  obtain ⟨-, bytes, hentry, hread⟩ := entry_of_opened h
  obtain ⟨-, bytes', hentry', hread'⟩ := entry_of_opened h'
  obtain rfl : bytes = bytes' := by
    rw [hentry] at hentry'
    exact Entry.file.inj (Option.some.inj hentry')
  rw [readText, readText, hread, hread']

/-- A text that can be read comes from bytes that can be read. -/
theorem read_of_readText {text : Text} (h : fs.readText path encoding = .ok text) :
    encoding.contains '\x00' = false ∧ ∃ bytes, fs.read path = .ok bytes := by
  unfold readText at h
  split at h
  · cases h
  · rename_i hname
    refine ⟨by simpa using hname, ?_⟩
    cases hread : fs.read path with
    | error e =>
      rw [hread] at h
      cases h
    | ok bytes => exact ⟨bytes, rfl⟩

/-- What can be read has been opened. -/
theorem opened_of_readText {text : Text} (h : fs.readText path encoding = .ok text) :
    ∃ place, fs.opened? path encoding = some place := by
  obtain ⟨hname, bytes, hread⟩ := read_of_readText h
  obtain ⟨hnul, place, hlocate, hentry, hopen⟩ := read_eq_ok_iff.1 hread
  refine ⟨place, ?_⟩
  rw [opened?, if_neg (by rw [hnul, hname]; decide), hlocate]
  exact Option.filter_eq_some_iff.2 ⟨rfl, by simp [hentry, Entry.isFile, hopen]⟩

/-- What can be read is there. -/
theorem isPresent_of_readText {text : Text} (h : fs.readText path encoding = .ok text) :
    fs.isPresent path = .ok true := by
  obtain ⟨-, bytes, hread⟩ := read_of_readText h
  obtain ⟨hnul, place, hlocate, hentry, -⟩ := read_eq_ok_iff.1 hread
  have hstatus : fs.status path = .ok (some (.file bytes)) := by
    rw [status, hlocate, ← hentry]
    rfl
  rw [isPresent, if_neg (by rw [hnul]; decide), hstatus]
  rfl

end FileSystem

/-! ## Footprints -/

/-- What a step leaves behind: its outcome, the file that it opens, and the text that it enters. -/
structure Footprint where
  outcome : Engine.Outcome
  opened : Option Place := none
  entered : Option Text := none

namespace Player

/-- The regular file that the next step opens. -/
def opens? (p : Player) : Option Place :=
  match p.state, p.cursor.advance.outcome with
  | .running, .ok (some (.directive (.jump path _))) =>
    p.files.opened? (resolvePath p path) p.config.encoding
  | _, _ => none

/-- What an opening says of the step that makes it. -/
theorem jump_of_opens {p : Player} {place : Place} (h : p.opens? = some place) :
    ∃ path choices, p.state = .running ∧
      p.cursor.advance.outcome = .ok (some (.directive (.jump path choices))) ∧
      p.files.opened? (resolvePath p path) p.config.encoding = some place := by
  unfold opens? at h
  split at h
  · rename_i path choices hs ho
    exact ⟨path, choices, hs, ho, h⟩
  · cases h

/-- The text that the next step enters. -/
def enters? (p : Player) : Option Text :=
  match p.effect? with
  | some (.jump target _ _) => some target.text
  | _ => none

def footprint (p : Player) : Footprint := ⟨p.step.2, p.opens?, p.enters?⟩

/-- The footprints of a number of steps. -/
def footprints : Nat → Player → List Footprint
  | 0, _ => []
  | n + 1, p => p.footprint :: footprints n p.step.1

end Player

/-- The files that are opened, in order. -/
def openings (fs : List Footprint) : List Place := fs.filterMap Footprint.opened

/-- The texts that are entered, in order. -/
def entries (fs : List Footprint) : List Text := fs.filterMap Footprint.entered

/-- The footprints of the steps of a session. -/
def Engine.footprints : Engine → List Engine.Request → List Footprint
  | _, [] => []
  | e, r :: rest =>
    let later := footprints (serve e r).1 rest
    if r.isNext then e.world.footprint :: later else later

theorem Player.openings_succ (p : Player) (n : Nat) :
    openings (p.footprints (n + 1)) = p.opens?.toList ++ openings (p.step.1.footprints n) := by
  rw [openings, footprints, List.filterMap_cons]
  cases h : p.footprint.opened with
  | none =>
    have hp : p.opens? = none := h
    rw [hp]
    rfl
  | some place =>
    have hp : p.opens? = some place := h
    rw [hp]
    rfl

theorem Player.entries_succ (p : Player) (n : Nat) :
    entries (p.footprints (n + 1)) = p.enters?.toList ++ entries (p.step.1.footprints n) := by
  rw [entries, footprints, List.filterMap_cons]
  cases h : p.footprint.entered with
  | none =>
    have hp : p.enters? = none := h
    rw [hp]
    rfl
  | some text =>
    have hp : p.enters? = some text := h
    rw [hp]
    rfl

/-! ## Players abreast of one another -/

/-- Two players at the same place of the same text, where paths do not depend on the script that
names them. The text may have come from anywhere. -/
structure Player.Abreast (p q : Player) : Prop where
  free : p.config.relativeToScript = false
  config : q.config = p.config
  files : q.files = p.files
  state : q.state = p.state
  cursor : q.cursor = { p.cursor with origin := q.cursor.origin }

/-- Where a script came from does not matter to its cursor. -/
theorem Cursor.advance_withOrigin (c : Cursor) (origin : Option Text) :
    ({ c with origin } : Cursor).advance =
      { c.advance with cursor := { c.advance.cursor with origin } } := by
  have hscan : ({ c with origin } : Cursor).scan = c.scan := rfl
  unfold advance
  rw [hscan]
  cases c.scan with
  | error e => rfl
  | ok found => cases found <;> rfl

theorem Engine.resolvePath_free {p : Player} (h : p.config.relativeToScript = false)
    (path : Text) : resolvePath p path = Path.ofText path := by
  simp [resolvePath, h]

namespace Player.Abreast

variable {p q r : Player}

theorem refl (h : p.config.relativeToScript = false) : p.Abreast p := ⟨h, rfl, rfl, rfl, rfl⟩

theorem alike (h : p.Abreast q) (h' : q.Alike r) : p.Abreast r where
  free := h.free
  config := h'.config.trans h.config
  files := h'.files.trans h.files
  state := h'.state.trans h.state
  cursor := by rw [h'.cursor]; exact h.cursor

theorem resolvePath (h : p.Abreast q) (path : Text) :
    Engine.resolvePath q path = Engine.resolvePath p path := by
  rw [Engine.resolvePath_free h.free, Engine.resolvePath_free (by rw [h.config]; exact h.free)]

theorem effectOf (h : p.Abreast q) (d : Directive) : effectOf q d = effectOf p d := by
  cases d with
  | loadBackground path => rfl
  | jump path choices =>
    simp only [Engine.effectOf, openScript, h.resolvePath, h.files, h.config]

theorem outcome (h : p.Abreast q) : q.cursor.advance.outcome = p.cursor.advance.outcome := by
  rw [h.cursor, Cursor.advance_withOrigin]

theorem cursor_advance (h : p.Abreast q) :
    q.cursor.advance.cursor = { p.cursor.advance.cursor with origin := q.cursor.origin } := by
  rw [h.cursor, Cursor.advance_withOrigin]

/-- A step takes players that are abreast to such players, and is the same to both. -/
theorem step (h : p.Abreast q) : p.step.1.Abreast q.step.1 ∧ q.step.2 = p.step.2 := by
  have hahead : q.cursor.advance.cursor =
      { p.cursor.advance.cursor with origin := q.cursor.advance.cursor.origin } := by
    rw [Cursor.origin_advance]
    exact h.cursor_advance
  cases p.sort with
  | stopped hv =>
    rw [step_of_verdict hv, step_of_verdict (p := q) (h.state ▸ hv)]
    exact ⟨h, rfl⟩
  | failing hs ho =>
    rw [step_of_failing hs ho, step_of_failing (h.state.trans hs) (h.outcome.trans ho)]
    exact ⟨⟨h.free, h.config, h.files, rfl, hahead⟩, rfl⟩
  | ending hs ho =>
    rw [step_of_ending hs ho, step_of_ending (h.state.trans hs) (h.outcome.trans ho)]
    exact ⟨⟨h.free, h.config, h.files, rfl, hahead⟩, rfl⟩
  | plain hs ho hm =>
    rw [step_of_plain hs ho hm, step_of_plain (h.state.trans hs) (h.outcome.trans ho) hm]
    exact ⟨⟨h.free, h.config, h.files, h.state, hahead⟩, rfl⟩
  | @impossible d error hs ho he =>
    rw [step_of_impossible hs ho he,
      step_of_impossible (h.state.trans hs) (h.outcome.trans ho) ((h.effectOf d).trans he)]
    exact ⟨⟨h.free, h.config, h.files, rfl, h.cursor⟩, rfl⟩
  | @possible d effect hs ho he =>
    rw [step_of_possible hs ho he,
      step_of_possible (h.state.trans hs) (h.outcome.trans ho) ((h.effectOf d).trans he)]
    cases effect with
    | jump target path choices => exact ⟨⟨h.free, h.config, h.files, h.state, rfl⟩, rfl⟩
    | background path => exact ⟨⟨h.free, h.config, h.files, h.state, hahead⟩, rfl⟩

theorem footprint (h : p.Abreast q) : q.footprint = p.footprint := by
  have hopens : q.opens? = p.opens? := by
    simp only [opens?, h.state, h.outcome, h.resolvePath, h.files, h.config]
  have henters : q.enters? = p.enters? := by
    have heffect : q.effect? = p.effect? := by
      simp only [effect?, h.state, h.outcome, h.effectOf]
    simp only [enters?, heffect]
  simp only [Player.footprint, h.step.2, hopens, henters]

theorem run (h : p.Abreast q) (n : Nat) : (p.run n).Abreast (q.run n) := by
  induction n generalizing p q with
  | zero => exact h
  | succ n ih => exact ih h.step.1

end Player.Abreast

/-! ## Sessions -/

namespace Engine

/-- The steps of a session leave the footprints of a run, whatever idle requests come between. The
run may be that of any player abreast of the engine's own. -/
theorem footprints_session {p : Player} {e : Engine} (h : p.Abreast e.world) (hq : e.bus.Quiet)
    {rs : List Request} (hr : ∀ r ∈ rs, r = .next ∨ r.Idle) :
    footprints e rs = p.footprints (rs.countP Request.isNext) ∧
      outcomes (serveAll e rs).2 = p.outcomes (rs.countP Request.isNext) := by
  induction rs generalizing e p with
  | nil => exact ⟨rfl, rfl⟩
  | cons r rest ih =>
    have hrest : ∀ r ∈ rest, r = .next ∨ r.Idle := fun r h => hr r (List.mem_cons_of_mem _ h)
    rcases hr r (List.mem_cons_self ..) with rfl | hidle
    · obtain ⟨hquiet, hworld, houtcome⟩ := next_quiet hq
      obtain ⟨hstep, hsame⟩ := h.step
      obtain ⟨hfootprints, houtcomes⟩ := ih (hworld.symm ▸ hstep) hquiet hrest
      rw [List.countP_cons_of_pos (by rfl)]
      constructor
      · exact congrArg₂ List.cons h.footprint hfootprints
      · exact congrArg₂ List.cons (houtcome.trans hsame) houtcomes
    · obtain ⟨halike, hquiet, hanswer, hnot⟩ := serve_idle hidle hq
      obtain ⟨hfootprints, houtcomes⟩ := ih (h.alike halike) hquiet hrest
      rw [List.countP_cons_of_neg (by simp [hnot]), footprints, if_neg (by simp [hnot]),
        serveAll, outcomes, List.filterMap_cons_none hanswer]
      exact ⟨hfootprints, houtcomes⟩

end Engine

end Playscript
