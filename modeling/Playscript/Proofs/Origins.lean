import Playscript.Proofs.Directories
import Playscript.Proofs.Openings
import Playscript.Proofs.Reentrance

/-!
# Origins

Which scripts the jumps of a play lead to. Each jump is taken from the directory of the script that
it stands in, or from where the play stands if paths do not depend on the script. The origin that an
engine keeps is the text of a path that it made itself, so a chain of jumps is a chain of paths; and
where these only lead down, no script is opened that does not lie below the directory of the first.

* `landing`, `reached`: where one jump leads, and where jumps lead one after the other.
* `Moment.origin_after`: a moment leaves the script alone or jumps from it.
* `Housed`: a script that is below a directory, and will be left for such scripts only.
* `origins_of_jumps`: the origins along a session, and the files that it opens.
-/

namespace Playscript

open Engine (elementsOf effectOf)

/-! ## Jumps -/

/-- The path of a jump. -/
def Element.jump? : Element → Option Text
  | .directive (.jump path _) => some path
  | _ => none

/-- Where a jump leads from a script of an origin. -/
def landing (config : Config) (origin path : Text) : Path :=
  if config.relativeToScript then (Path.ofText origin).parent.join (Path.ofText path)
  else Path.ofText path

/-- A path that leads to the same place from everywhere. -/
theorem landing_of_fixed {config : Config} (origin : Text) {path : Text}
    (h : config.relativeToScript = false ∨ (Path.ofText path).isRooted = true) :
    landing config origin path = Path.ofText path := by
  rcases h with hflag | hrooted
  · simp [landing, hflag]
  · unfold landing
    split
    · exact Path.join_of_rooted _ hrooted
    · rfl

/-- The origin of the script that jumps lead to, one after the other. -/
def reached (config : Config) (origin : Text) (paths : List Text) : Text :=
  paths.foldl (fun origin path => (landing config origin path).toText) origin

/-- The paths of the jumps that were given, in the order in which the engine took them. -/
def jumpPaths (ms : List Moment) : List Text := (elementsOf (stepsOf ms)).filterMap Element.jump?

theorem jumpPaths_append (ms ns : List Moment) :
    jumpPaths (ms ++ ns) = jumpPaths ms ++ jumpPaths ns := by
  simp only [jumpPaths, stepsOf, Engine.outcomes, elementsOf, List.map_append,
    List.filterMap_append]

theorem reached_append (config : Config) (origin : Text) (paths later : List Text) :
    reached config origin (paths ++ later) = reached config (reached config origin paths) later :=
  List.foldl_append ..

/-- An empty origin is like none. -/
theorem jumpTarget_eq_landing (config : Config) (origin path : Text) :
    jumpTarget config (some origin) path = landing config origin path := by
  unfold jumpTarget landing
  cases config.relativeToScript with
  | false => simp
  | true =>
    by_cases hrooted : (Path.ofText path).isRooted = true
    · simp [hrooted, Path.join]
    · cases origin with
      | nil =>
        have hempty : (Path.ofText []).parent = ⟨.relative, []⟩ := by decide
        simp [hempty, Path.join_of_nil]
      | cons c r => simp [hrooted]

/-- What a player was at that gives a jump: it was read, and its target is there to go on with. -/
theorem Player.of_jump_given {p : Player} {path : Text} {choices : Option (Text × Text)}
    (h : p.step.2 = .ok (some (.directive (.jump path choices)))) :
    p.state = .running ∧
      p.cursor.advance.outcome = .ok (some (.directive (.jump path choices))) ∧
      ∃ text, p.files.readText (jumpTarget p.config p.cursor.origin path) p.config.encoding =
          .ok text ∧
        p.step.1.cursor =
          .ofText text (some (jumpTarget p.config p.cursor.origin path).toText) := by
  cases p.sort with
  | stopped hv =>
    rw [step_of_verdict hv] at h
    rcases PlayState.verdict?_eq_some hv with ⟨error, -, rfl⟩ | ⟨-, rfl⟩ <;> cases h
  | failing hs ho =>
    rw [step_of_failing hs ho] at h
    cases h
  | ending hs ho =>
    rw [step_of_ending hs ho] at h
    cases h
  | plain hs ho hm =>
    rw [step_of_plain hs ho hm] at h
    cases h
    exact absurd rfl hm
  | impossible hs ho he =>
    rw [step_of_impossible hs ho he] at h
    cases h
  | @possible d effect hs ho he =>
    rw [step_of_possible hs ho he] at h ⊢
    cases h
    obtain ⟨text, hread, rfl⟩ := Engine.effectOf_jump_eq_ok he
    exact ⟨hs, ho, text, hread, rfl⟩

theorem leadOn_of_not_jump {config : Config} {files : FileSystem} {source : Source}
    {element : Element} (h : element.jump? = none) :
    leadOn config files source element = source := by
  cases element with
  | directive d =>
    cases d with
    | jump path choices => cases h
    | loadBackground path => rfl
  | dialogue name body => rfl
  | comment => rfl

/-- A step leads where the jump that it gives leads, or nowhere. -/
theorem Player.origin_step {p : Player} {origin : Text} (ho : p.cursor.origin = some origin) :
    p.step.1.cursor.origin =
      some (reached p.config origin ((elementsOf [p.step.2]).filterMap Element.jump?)) := by
  obtain ⟨-, -, ⟨hstops, -, hsource⟩ | ⟨element, hgiven, -, hsource⟩⟩ := p.step_leaves
  · rw [Engine.elementsOf_cons_of_stops hstops]
    exact (congrArg Prod.fst hsource).trans ho
  · rw [hgiven]
    cases hjump : element.jump? with
    | none =>
      rw [leadOn_of_not_jump hjump] at hsource
      simp only [elementsOf, List.filterMap_cons, List.filterMap_nil, hjump]
      exact (congrArg Prod.fst hsource).trans ho
    | some path =>
      obtain ⟨choices, rfl⟩ : ∃ choices, element = .directive (.jump path choices) := by
        cases element with
        | directive d => cases d <;> cases hjump; exact ⟨_, rfl⟩
        | _ => cases hjump
      obtain ⟨-, -, text, -, hcursor⟩ := of_jump_given hgiven
      rw [hcursor, ho, jumpTarget_eq_landing]
      rfl

/-! ## Moments -/

/-- A request that brings in a script. -/
def Engine.Request.Replaces : Engine.Request → Prop
  | .replaceScript _ => True
  | _ => False

namespace Moment

variable {m : Moment} {origin : Text}

/-- A request for anything but a step leaves the script where it is from, and gives no step. -/
theorem of_other (hn : m.request ≠ .next) (hr : ¬m.request.Replaces) :
    m.after.world.config = m.engine.world.config ∧ m.after.world.files = m.engine.world.files ∧
      m.after.world.cursor.origin = m.engine.world.cursor.origin ∧
      ∀ ms, stepsOf (m :: ms) = stepsOf ms := by
  by_cases ht : m.request.Tampers
  · have hadvance : m.request = .advance := by
      cases hrequest : m.request with
      | advance => rfl
      | replaceScript c => exact absurd (by rw [hrequest]; trivial) hr
      | _ => rw [hrequest] at ht; exact ht.elim
    have hafter : m.after = Engine.moved m.engine := by
      rw [after, hadvance]
      rfl
    have hanswer : m.answer.outcome? = none := by
      rw [answer, hadvance]
      rfl
    rw [hafter, Engine.world_moved]
    refine ⟨rfl, rfl, Cursor.origin_advance _, fun ms => ?_⟩
    simp only [stepsOf, Engine.outcomes, List.map_cons, List.filterMap_cons_none hanswer]
  · obtain ⟨hstill, hskip⟩ := of_plain hn ht
    exact ⟨hstill.config, hstill.files, congrArg Cursor.origin hstill.cursor, hskip⟩

/-- A moment leaves the script alone, or jumps from it. -/
theorem origin_after (hr : ¬m.request.Replaces) (ho : m.engine.world.cursor.origin = some origin) :
    m.after.world.config = m.engine.world.config ∧ m.after.world.files = m.engine.world.files ∧
      m.after.world.cursor.origin =
        some (reached m.engine.world.config origin (jumpPaths [m])) := by
  by_cases hn : m.request = .next
  · obtain ⟨hafter, hanswer⟩ := of_next hn
    obtain ⟨hconfig, hfiles, -⟩ := m.engine.world.step_leaves
    rw [hafter, jumpPaths, stepsOf_cons_of_stepped hanswer]
    exact ⟨hconfig, hfiles, Player.origin_step ho⟩
  · obtain ⟨hconfig, hfiles, horigin, hskip⟩ := of_other hn hr
    rw [jumpPaths, hskip]
    exact ⟨hconfig, hfiles, horigin.trans ho⟩

/-- A moment that gives a jump jumps. -/
theorem origin_of_jump {path : Text} {choices : Option (Text × Text)}
    (ho : m.engine.world.cursor.origin = some origin)
    (hgiven : m.answer = .stepped (.ok (some (.directive (.jump path choices))))) :
    m.after.world.cursor.origin = some (landing m.engine.world.config origin path).toText := by
  obtain ⟨hafter, hanswer⟩ := of_next (next_of_stepped hgiven)
  rw [hanswer] at hgiven
  obtain ⟨-, -, text, -, hcursor⟩ := Player.of_jump_given (Engine.Answer.stepped.inj hgiven)
  rw [hafter, hcursor, ho, jumpTarget_eq_landing]

end Moment

namespace Player.Follows

variable {P : Engine.Request → Prop} {p q : Player} {ms before later : List Moment} {m : Moment}

/-- Moments can be parted anywhere. -/
theorem parted (h : p.Follows P (before ++ later) q) :
    ∃ mid, p.Follows P before mid ∧ mid.Follows P later q := by
  induction before generalizing p with
  | nil => exact ⟨p, rfl, h⟩
  | cons m before ih =>
    obtain ⟨hfrom, hP, hrest⟩ := h
    obtain ⟨mid, hbefore, hlater⟩ := ih hrest
    exact ⟨mid, ⟨hfrom, hP, hbefore⟩, hlater⟩

/-- Moments lead where their jumps lead, one after the other. -/
theorem origin_reached (h : p.Follows (¬·.Replaces) ms q) {origin : Text}
    (ho : p.cursor.origin = some origin) :
    q.config = p.config ∧ q.files = p.files ∧
      q.cursor.origin = some (reached p.config origin (jumpPaths ms)) := by
  induction ms generalizing p origin with
  | nil =>
    obtain rfl : q = p := h
    exact ⟨rfl, rfl, ho⟩
  | cons m ms ih =>
    obtain ⟨rfl, hr, hrest⟩ := h
    obtain ⟨hconfig, hfiles, horigin⟩ := m.origin_after hr ho
    obtain ⟨hconfig', hfiles', horigin'⟩ := ih hrest horigin
    have hpaths : jumpPaths (m :: ms) = jumpPaths [m] ++ jumpPaths ms := jumpPaths_append [m] ms
    refine ⟨hconfig'.trans hconfig, hfiles'.trans hfiles, ?_⟩
    rw [horigin', hconfig, hpaths, reached_append]

/-- What holds at a moment follows from the moments before it. -/
theorem reached_at (h : p.Follows (¬·.Replaces) (before ++ m :: later) q) {origin : Text}
    (ho : p.cursor.origin = some origin) :
    p.Follows (¬·.Replaces) before m.engine.world ∧
      m.engine.world.config = p.config ∧ m.engine.world.files = p.files ∧
      m.engine.world.cursor.origin = some (reached p.config origin (jumpPaths before)) := by
  obtain ⟨mid, hbefore, hlater⟩ := h.parted
  rw [← hlater.1] at hbefore
  exact ⟨hbefore, hbefore.origin_reached ho⟩

end Player.Follows

/-! ## Scripts below a directory -/

open FileSystem (dots)

/-- The path leads down from where it starts. -/
def Path.Descends (p : Path) : Prop := p.isRooted = false ∧ dots ∉ p.parts

instance : DecidablePred Path.Descends := fun _ => inferInstanceAs (Decidable (_ ∧ _))

/-- The path names something below a directory. -/
structure Path.Below (folder p : Path) : Prop where
  root : p.root = folder.root
  parts : ∃ rest, p.parts = folder.parts ++ rest ∧ dots ∉ rest

/-- A path below a directory leads to a place below that of the directory. -/
theorem Path.Below.locate {files : FileSystem} {folder p : Path} {dir place : Place}
    (h : folder.Below p) (hdir : files.locate folder = .ok dir)
    (hplace : files.locate p = .ok place) : dir <+: place := by
  obtain ⟨rest, hparts, hdown⟩ := h.parts
  obtain ⟨-, hwalk⟩ := FileSystem.locate_eq_ok_iff.1 hplace
  have hstart : files.start p = files.start folder := by
    rw [FileSystem.start, FileSystem.start, isRooted, isRooted, h.root]
  rw [hstart, hparts] at hwalk
  obtain ⟨next, hnext, hlater⟩ := FileSystem.walk_append_eq_ok_iff.1 hwalk
  obtain rfl : dir = next := by
    rw [(FileSystem.locate_eq_ok_iff.1 hdir).2] at hnext
    exact Except.ok.inj hnext
  exact ⟨rest, (FileSystem.walk_eq_append hdown hlater).symm⟩

/-- A script that is there, in a directory below another or in that one. -/
structure Housed (files : FileSystem) (folder : Path) (origin : Text) : Prop where
  read : ∃ bytes, files.read (Path.ofText origin) = .ok bytes
  below : folder.Below (Path.ofText origin).parent

namespace Housed

variable {files : FileSystem} {folder target : Path} {origin path : Text}

theorem first (h : ∃ bytes, files.read (Path.ofText origin) = .ok bytes) :
    Housed files (Path.ofText origin).parent origin :=
  ⟨h, rfl, [], (List.append_nil _).symm, by simp⟩

/-- The directory of a script that is there is there. -/
theorem locate_folder (h : ∃ bytes, files.read (Path.ofText origin) = .ok bytes) :
    ∃ dir, files.locate (Path.ofText origin).parent = .ok dir := by
  obtain ⟨bytes, hread⟩ := h
  obtain ⟨-, place, hlocate, -⟩ := FileSystem.read_eq_ok_iff.1 hread
  by_cases hnil : (Path.ofText origin).parts = []
  · exact ⟨place, by rwa [Path.parent_of_nil hnil]⟩
  · obtain ⟨dir, hdir, -⟩ := FileSystem.locate_parent (Path.proper_ofText _) hnil hlocate
    exact ⟨dir, hdir⟩

/-- What a descending path names from such a script is below the directory as well. -/
theorem below_join (h : Housed files folder origin) (hp : (Path.ofText path).Descends) :
    folder.Below ((Path.ofText origin).parent.join (Path.ofText path)) := by
  obtain ⟨rest, hparts, hdown⟩ := h.below.parts
  have hjoin := Path.parts_join (Path.ofText origin).parent hp.1
  refine ⟨?_, rest ++ (Path.ofText path).parts, ?_, ?_⟩
  · rw [← h.below.root, Path.join, if_neg (by simp [hp.1])]
  · rw [hjoin, hparts, List.append_assoc]
  · rw [List.mem_append, not_or]
    exact ⟨hdown, hp.2⟩

/-- A script that is read in this way is such a script again. Only a directory could be named by a
path without components. -/
theorem join (h : Housed files folder origin) (hp : (Path.ofText path).Descends)
    (hread : ∃ bytes,
      files.read ((Path.ofText origin).parent.join (Path.ofText path)) = .ok bytes) :
    Housed files folder ((Path.ofText origin).parent.join (Path.ofText path)).toText := by
  have hproper := (Path.proper_ofText origin).parent.join (Path.proper_ofText path)
  have htext := Path.ofText_toText hproper
  have hbelow := h.below_join hp
  refine ⟨htext.symm ▸ hread, ?_⟩
  rw [htext]
  refine ⟨hbelow.root, ?_⟩
  have hjoin := Path.parts_join (Path.ofText origin).parent hp.1
  rw [Path.parts_parent, hjoin]
  obtain ⟨rest, hparts, hdown⟩ := h.below.parts
  by_cases hnil : (Path.ofText path).parts = []
  · have htarget : (Path.ofText origin).parent.join (Path.ofText path) =
        (Path.ofText origin).parent := by
      rw [Path.join, if_neg (by simp [hp.1]), hnil, List.append_nil]
    rw [htarget] at hread
    obtain ⟨_, hread⟩ := hread
    obtain ⟨_, hfirst⟩ := h.read
    obtain ⟨-, place, hlocate, hfile, -⟩ := FileSystem.read_eq_ok_iff.1 hread
    obtain ⟨-, origin', hlocate', -⟩ := FileSystem.read_eq_ok_iff.1 hfirst
    by_cases hroot : (Path.ofText origin).parts = []
    · -- A place that is both a file and where paths start; nothing is above it.
      rw [Path.parts_parent, hroot] at hparts
      obtain ⟨hfolder, -⟩ := List.append_eq_nil_iff.1 hparts.symm
      exact ⟨[], by rw [hnil, hfolder, Path.parts_parent, hroot]; rfl, by simp⟩
    · obtain ⟨dir, hdir, hentry⟩ :=
        FileSystem.locate_parent (Path.proper_ofText origin) hroot hlocate'
      rw [hlocate, Except.ok.injEq] at hdir
      rw [hdir, hentry] at hfile
      cases hfile
  · rw [List.dropLast_append_of_ne_nil hnil, hparts]
    refine ⟨rest ++ (Path.ofText path).parts.dropLast, List.append_assoc .., ?_⟩
    rw [List.mem_append, not_or]
    exact ⟨hdown, fun hmem => hp.2 (List.dropLast_subset _ hmem)⟩

theorem prefix_parts (h : Housed files folder origin) :
    folder.parts <+: (Path.ofText origin).parts := by
  obtain ⟨rest, hparts, -⟩ := h.below.parts
  have hparent := (Path.ofText origin).parts.dropLast_prefix
  rw [← Path.parts_parent, hparts] at hparent
  exact (List.prefix_append ..).trans hparent

end Housed

/-- The path of the jump that a moment executes, whether it can be taken or not. -/
def Moment.attempt? (m : Moment) : Option Text :=
  match m.request, m.engine.world.state, m.engine.world.cursor.advance.outcome with
  | .next, .running, .ok (some (.directive (.jump path _))) => some path
  | _, _, _ => none

theorem Moment.attempt?_eq_some {m : Moment} {path : Text} {choices : Option (Text × Text)}
    (hn : m.request = .next) (hs : m.engine.world.state = .running)
    (ho : m.engine.world.cursor.advance.outcome = .ok (some (.directive (.jump path choices)))) :
    m.attempt? = some path := by
  simp only [attempt?, hn, hs, ho]

theorem jumpPaths_of_no_jump {m : Moment}
    (h : ∀ path choices, m.answer ≠ .stepped (.ok (some (.directive (.jump path choices))))) :
    jumpPaths [m] = [] := by
  cases hanswer : m.answer with
  | stepped o =>
    rw [jumpPaths, stepsOf_cons_of_stepped hanswer]
    rcases o with error | _ | element
    · rfl
    · rfl
    · have hjump : element.jump? = none := by
        cases element with
        | directive d =>
          cases d with
          | jump path choices => exact absurd hanswer (h path choices)
          | loadBackground path => rfl
        | _ => rfl
      show [element].filterMap Element.jump? = []
      rw [List.filterMap_cons_none hjump, List.filterMap_nil]
  | _ => simp [jumpPaths, stepsOf, Engine.outcomes, hanswer, Engine.Answer.outcome?, elementsOf]

section

variable {m : Moment} {folder : Path} {origin : Text}

/-- A moment leads from a script below a directory to such a script, if the jump that it executes
descends. -/
theorem Housed.after (hr : ¬m.request.Replaces)
    (hflag : m.engine.world.config.relativeToScript = true)
    (ho : m.engine.world.cursor.origin = some origin)
    (hh : Housed m.engine.world.files folder origin)
    (hdown : ∀ path, m.attempt? = some path → (Path.ofText path).Descends) :
    ∃ origin', m.after.world.cursor.origin = some origin' ∧
      Housed m.engine.world.files folder origin' := by
  by_cases hjump : ∃ path choices,
      m.answer = .stepped (.ok (some (.directive (.jump path choices))))
  · obtain ⟨path, choices, hgiven⟩ := hjump
    have hn := Moment.next_of_stepped hgiven
    have hstep := (Moment.of_next hn).2
    rw [hgiven] at hstep
    obtain ⟨hs, houtcome, text, hread, -⟩ :=
      Player.of_jump_given (Engine.Answer.stepped.inj hstep).symm
    have hlanding : landing m.engine.world.config origin path =
        (Path.ofText origin).parent.join (Path.ofText path) := by rw [landing, if_pos hflag]
    rw [ho, jumpTarget_eq_landing, hlanding] at hread
    refine ⟨_, m.origin_of_jump ho hgiven, ?_⟩
    rw [hlanding]
    exact hh.join (hdown path (m.attempt?_eq_some hn hs houtcome))
      (FileSystem.read_of_readText hread).2
  · have hpaths := jumpPaths_of_no_jump fun path choices h => hjump ⟨path, choices, h⟩
    obtain ⟨-, -, horigin⟩ := m.origin_after hr ho
    rw [hpaths] at horigin
    exact ⟨origin, horigin, hh⟩

/-- What a step opens then is below the directory. -/
theorem Housed.opens (hn : m.request = .next)
    (hflag : m.engine.world.config.relativeToScript = true)
    (ho : m.engine.world.cursor.origin = some origin)
    (hh : Housed m.engine.world.files folder origin)
    (hdown : ∀ path, m.attempt? = some path → (Path.ofText path).Descends) {dir place : Place}
    (hdir : m.engine.world.files.locate folder = .ok dir)
    (hopens : m.engine.world.opens? = some place) : dir <+: place := by
  obtain ⟨path, choices, hs, houtcome, hopened⟩ := Player.jump_of_opens hopens
  rw [Engine.resolvePath_eq, ho, jumpTarget_eq_landing, landing, if_pos hflag] at hopened
  have hbelow := hh.below_join (hdown path (m.attempt?_eq_some hn hs houtcome))
  exact hbelow.locate hdir (FileSystem.locate_of_opened hopened)

end

/-- A session that starts with a script below a directory stays below it, as long as all jumps
descend. -/
theorem Player.Follows.housed {p q : Player} {ms : List Moment} {folder : Path} {origin : Text}
    (h : p.Follows (¬·.Replaces) ms q) (hflag : p.config.relativeToScript = true)
    (ho : p.cursor.origin = some origin) (hh : Housed p.files folder origin)
    (hdown : ∀ m ∈ ms, ∀ path, m.attempt? = some path → (Path.ofText path).Descends) :
    ∃ origin', q.cursor.origin = some origin' ∧ Housed p.files folder origin' := by
  induction ms generalizing p origin with
  | nil =>
    obtain rfl : q = p := h
    exact ⟨origin, ho, hh⟩
  | cons m ms ih =>
    obtain ⟨rfl, hr, hrest⟩ := h
    obtain ⟨hconfig, hfiles, -⟩ := m.origin_after hr ho
    obtain ⟨next, hnext, hhoused⟩ := hh.after hr hflag ho (hdown m (List.mem_cons_self ..))
    rw [← hfiles] at hhoused ⊢
    exact ih hrest (hconfig ▸ hflag) hnext hhoused fun n hn => hdown n (List.mem_cons_of_mem _ hn)

/-- So it does at each moment. -/
theorem Player.Follows.housed_at {p q : Player} {ms : List Moment} {folder : Path} {origin : Text}
    (h : p.Follows (¬·.Replaces) ms q) (hflag : p.config.relativeToScript = true)
    (ho : p.cursor.origin = some origin) (hh : Housed p.files folder origin)
    (hdown : ∀ m ∈ ms, ∀ path, m.attempt? = some path → (Path.ofText path).Descends)
    {m : Moment} (hm : m ∈ ms) :
    m.engine.world.config = p.config ∧ m.engine.world.files = p.files ∧
      ∃ origin', m.engine.world.cursor.origin = some origin' ∧ Housed p.files folder origin' := by
  obtain ⟨before, later, rfl⟩ := List.append_of_mem hm
  obtain ⟨hbefore, hconfig, hfiles, -⟩ := h.reached_at ho
  exact ⟨hconfig, hfiles, hbefore.housed hflag ho hh fun n hn =>
    hdown n (List.mem_append_left _ hn)⟩

namespace Engine

theorem world_ofFile {config : Config} {files : FileSystem} {decoder : Decoder} {path : Path}
    {shown : Text} {e : Engine} (h : ofFile config files decoder path shown = .ok e) :
    e.world.config = config ∧ e.world.files = files := by
  unfold ofFile at h
  split at h
  · cases h
  · cases h
    exact ⟨rfl, rfl⟩

/-- **Jumps lead from script to script, and only where they may.** An engine on a file is asked for
anything but to take another script, and so it is by listeners of any conduct. Then the origin of
the script at each moment is what the jumps given so far have made of the first. A path that does
not depend on the script leads to the same place from every script. If all paths depend on it and
lead down, whether the jumps succeed or not, then every origin starts with the directory of the
first script, and every file that is opened lies below the place of that directory. -/
theorem origins_of_jumps {cast : Cast} {config : Config} {files : FileSystem} {decoder : Decoder}
    {first : Text} {e : Engine} {rs : List Request}
    (he : ofFile config files decoder (Path.ofText first) first = .ok e)
    (hc : cast.Only (¬·.Replaces)) (hr : ∀ r ∈ rs, ¬r.Replaces) :
    let moments := course cast rs e
    let after := (serveAllAs cast e rs).1
    let folder := (Path.ofText first).parent
    (∀ before m later, moments = before ++ m :: later →
      m.engine.world.cursor.origin = some (reached config first (jumpPaths before))) ∧
    after.world.cursor.origin = some (reached config first (jumpPaths moments)) ∧
    (∀ m ∈ moments, ∀ path choices,
      m.answer = .stepped (.ok (some (.directive (.jump path choices)))) →
      ∃ origin, m.engine.world.cursor.origin = some origin ∧
        m.after.world.cursor.origin = some (landing config origin path).toText ∧
        (config.relativeToScript = true →
          landing config origin path = (Path.ofText origin).parent.join (Path.ofText path)) ∧
        (config.relativeToScript = false ∨ (Path.ofText path).isRooted = true →
          landing config origin path = Path.ofText path)) ∧
    (config.relativeToScript = true →
      (∀ m ∈ moments, ∀ path, m.attempt? = some path → (Path.ofText path).Descends) →
      (∀ origin, after.world.cursor.origin = some origin ∨
          (∃ m ∈ moments, m.engine.world.cursor.origin = some origin) →
        folder.parts <+: (Path.ofText origin).parts ∧ (Path.ofText origin).root = folder.root) ∧
      ∃ dir, files.locate folder = .ok dir ∧
        ∀ m ∈ moments, m.request = .next →
          ∀ place, m.engine.world.opens? = some place → dir <+: place) := by
  intro moments after folder
  obtain ⟨text, hread, hfresh⟩ := fresh_ofFile he
  obtain ⟨rfl, rfl⟩ := world_ofFile he
  have horigin : e.world.cursor.origin = some first := by rw [hfresh.cursor]
  have hfollows : e.world.Follows (¬·.Replaces) moments after.world := follows_course hc hr e
  have hat : ∀ before m later, moments = before ++ m :: later →
      m.engine.world.config = e.world.config ∧
        m.engine.world.cursor.origin = some (reached e.world.config first (jumpPaths before)) := by
    intro before m later hmoments
    obtain ⟨-, hconfig, -, ho⟩ := (hmoments ▸ hfollows).reached_at horigin
    exact ⟨hconfig, ho⟩
  refine ⟨fun before m later h => (hat before m later h).2,
    (hfollows.origin_reached horigin).2.2, ?_, ?_⟩
  · intro m hm path choices hgiven
    obtain ⟨before, later, hmoments⟩ := List.append_of_mem hm
    obtain ⟨hconfig, ho⟩ := hat before m later hmoments
    have hlanding := m.origin_of_jump ho hgiven
    rw [hconfig] at hlanding
    exact ⟨_, ho, hlanding, fun h => if_pos h, landing_of_fixed _⟩
  · intro hflag hdown
    have hthere : ∃ bytes, e.world.files.read (Path.ofText first) = .ok bytes :=
      (FileSystem.read_of_readText hread).2
    have hhoused : Housed e.world.files folder first := Housed.first hthere
    constructor
    · rintro origin (hlast | ⟨m, hm, ho⟩)
      · obtain ⟨origin', ho', hh⟩ := hfollows.housed hflag horigin hhoused hdown
        obtain rfl : origin' = origin := Option.some.inj (ho'.symm.trans hlast)
        exact ⟨hh.prefix_parts, hh.below.root⟩
      · obtain ⟨-, -, origin', ho', hh⟩ := hfollows.housed_at hflag horigin hhoused hdown hm
        obtain rfl : origin' = origin := Option.some.inj (ho'.symm.trans ho)
        exact ⟨hh.prefix_parts, hh.below.root⟩
    · obtain ⟨dir, hdir⟩ := Housed.locate_folder hthere
      refine ⟨dir, hdir, fun m hm hn place hopens => ?_⟩
      obtain ⟨hconfig, hfiles, origin, ho, hh⟩ :=
        hfollows.housed_at hflag horigin hhoused hdown hm
      rw [← hfiles] at hh hdir
      exact hh.opens hn (hconfig ▸ hflag) ho (hdown m hm) hdir hopens

/-- Two scripts, one in a directory below that of the other, and a jump to one that is missing. -/
def library : FileSystem where
  entries :=
    [([], .directory), (["a".toList], .directory), (["a".toList, "b".toList], .directory),
      (["a".toList, "one.vn".toList], .file (Utf8.encode "@jump(./b/two.vn)".toList)),
      (["a".toList, "b".toList, "two.vn".toList],
        .file (Utf8.encode "[Ada] hi\n@jump(three.vn)".toList))]

def firstScript : Cursor := .ofText "@jump(./b/two.vn)".toList (some "a/one.vn".toList)

/-- An engine about to play the first of them. -/
def tour : Engine :=
  ((fresh { relativeToScript := true } library (fun _ path => .error (.missingFile path))
      firstScript).log firstScript.loadRecord).log (startRecord firstScript)

theorem origins_of_jumps_library :
    let moments := course own [.next, .next, .next] tour
    ofFile { relativeToScript := true } library (fun _ path => .error (.missingFile path))
        (Path.ofText "a/one.vn".toList) "a/one.vn".toList = .ok tour ∧
      own.Only (¬·.Replaces) ∧ (∀ r ∈ [Request.next, .next, .next], ¬r.Replaces) ∧
      (∀ m ∈ moments, ∀ path, m.attempt? = some path → (Path.ofText path).Descends) ∧
      (serveAllAs own tour [.next, .next, .next]).1.world.cursor.origin =
        some "a/b/two.vn".toList ∧
      ∃ dir, library.locate (Path.ofText "a".toList) = .ok dir ∧
        ∀ m ∈ moments, m.request = .next →
          ∀ place, m.engine.world.opens? = some place → dir <+: place := by
  intro moments
  have he : ofFile { relativeToScript := true } library (fun _ path => .error (.missingFile path))
      (Path.ofText "a/one.vn".toList) "a/one.vn".toList = .ok tour := rfl
  have hc : own.Only (¬·.Replaces) :=
    acts_own.mono fun r hr => by cases r <;> first | exact id | cases hr
  have hr : ∀ r ∈ [Request.next, .next, .next], ¬r.Replaces := by
    intro r hmem
    obtain rfl : r = .next := by simpa using hmem
    exact id
  have hdown : ∀ m ∈ moments, ∀ path ∈ m.attempt?, (Path.ofText path).Descends := by
    decide +kernel
  obtain ⟨-, hlast, -, hinside⟩ := origins_of_jumps he hc hr
  refine ⟨he, hc, hr, hdown, ?_, ?_⟩
  · rw [hlast]
    decide +kernel
  · exact (hinside rfl hdown).2

end Engine

end Playscript
