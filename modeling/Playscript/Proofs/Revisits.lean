import Mathlib
import Playscript.Proofs.Openings
import Playscript.Proofs.Stopping

/-!
# Revisits

A play that comes to a file for the second time is where it was before, and so it will be there
again and again. Where paths do not depend on the script that names them, a play that stops has
therefore opened no file twice, and there is a bound on how long it can have taken.

* `run_add`, `running_of_run`, `config_run`: what a run keeps.
* `running_of_abreast`: a player that comes back to where it was never stops.
* `nodup_openings`: a player that stops opens no file twice.
* `countP_jump_le`, `length_elements_le`: how many jumps and how many elements there can be.
* `stops_without_revisit`: all this for sessions.
-/

namespace Playscript

open Engine (effectOf resolvePath elementsOf elementsOf_cons_of_stops elementsOf_cons_element)

namespace Player

/-! ## What a run keeps -/

theorem run_add (m n : Nat) (p : Player) : p.run (m + n) = (p.run m).run n := by
  induction m generalizing p with
  | zero => rw [Nat.zero_add]; rfl
  | succ m ih =>
    rw [Nat.succ_add]
    exact ih p.step.1

theorem run_succ (n : Nat) (p : Player) : p.run (n + 1) = (p.run n).step.1 := run_add n 1 p

/-- A stopped player stays as it is. -/
theorem run_of_stopped {p : Player} (h : p.state ≠ .running) (n : Nat) : p.run n = p := by
  induction n with
  | zero => rfl
  | succ n ih =>
    cases hv : p.state.verdict? with
    | none => exact absurd (PlayState.verdict?_eq_none.1 hv) h
    | some o => rw [run_succ, ih, step_of_verdict hv]

/-- A player that still runs has run all the time. -/
theorem running_of_run {p : Player} {m n : Nat} (h : (p.run n).state = .running) (hm : m ≤ n) :
    (p.run m).state = .running := by
  by_contra hs
  obtain ⟨k, rfl⟩ := Nat.exists_eq_add_of_le hm
  rw [run_add, run_of_stopped hs] at h
  exact hs h

theorem config_run (p : Player) (n : Nat) :
    (p.run n).config = p.config ∧ (p.run n).files = p.files := by
  induction n with
  | zero => exact ⟨rfl, rfl⟩
  | succ n ih =>
    obtain ⟨hconfig, hfiles, -⟩ := (p.run n).step_leaves
    rw [run_succ]
    exact ⟨hconfig.trans ih.1, hfiles.trans ih.2⟩

/-- A step that gives no element stops the player. -/
theorem stopped_of_stops {p : Player} (h : p.step.2.Stops) : p.step.1.state ≠ .running := by
  intro hs
  have hv := p.verdict?_step
  rw [hs] at hv
  cases ho : p.step.2 with
  | error error => rw [ho] at hv; cases hv
  | ok found =>
    cases found with
    | none => rw [ho] at hv; cases hv
    | some element => exact h element ho

theorem stopped_of_mem_outcomes {p : Player} {n : Nat} {o : Engine.Outcome}
    (h : o ∈ p.outcomes n) (ho : o.Stops) : (p.run n).state ≠ .running := by
  induction n generalizing p with
  | zero => cases h
  | succ n ih =>
    rcases List.mem_cons.1 h with rfl | hrest
    · have hstopped := stopped_of_stops ho
      rw [run, run_of_stopped hstopped]
      exact hstopped
    · exact ih hrest

/-! ## Going round -/

/-- A player that comes back to where it was, and still runs, never stops. The induction is on the
number of steps, which are so many rounds and a part of one. -/
theorem running_of_abreast {p : Player} {m : Nat} (hm : 0 < m) (h : p.Abreast (p.run m))
    (hs : (p.run m).state = .running) (n : Nat) : (p.run n).state = .running := by
  induction n using Nat.strong_induction_on with
  | _ n ih =>
    by_cases hn : n ≤ m
    · exact running_of_run hs hn
    · obtain ⟨k, rfl⟩ := Nat.exists_eq_add_of_le (Nat.le_of_not_le hn)
      rw [run_add, (h.run k).state]
      exact ih k (by omega)

/-- The player is about to play what a file holds, from its start. -/
structure AtStart (p : Player) (place : Place) : Prop where
  running : p.state = .running
  cursor : p.cursor = .ofText p.cursor.text p.cursor.origin
  reads : ∀ path, p.files.opened? path p.config.encoding = some place →
    p.files.readText path p.config.encoding = .ok p.cursor.text

/-- A jump to what can be read leads to the start of it. -/
theorem step_of_jump {p : Player} (hs : p.state = .running) {path text : Text}
    {choices : Option (Text × Text)}
    (h : p.cursor.advance.outcome = .ok (some (.directive (.jump path choices))))
    (hread : p.files.readText (resolvePath p path) p.config.encoding = .ok text) :
    let target := Cursor.ofText text (some (resolvePath p path).toText)
    p.step = ({ p with cursor := target, replaced := p.replaced + 1 },
      .ok (some (.directive (.jump path choices)))) ∧
    p.enters? = some text := by
  intro target
  have he : effectOf p (.jump path choices) = .ok (.jump target path choices) := by
    rw [Engine.effectOf_jump, hread]
  refine ⟨step_of_possible hs h he, ?_⟩
  simp only [enters?, effect?, hs, h, he]
  rfl

/-- A step that opens a file stops there or leads to the start of it. -/
theorem step_of_opens {p : Player} {place : Place} (h : p.opens? = some place) :
    p.step.1.state ≠ .running ∨ p.step.1.AtStart place := by
  obtain ⟨path, choices, hs, ho, hopened⟩ := jump_of_opens h
  cases hread : p.files.readText (resolvePath p path) p.config.encoding with
  | error reason =>
    have he : effectOf p (.jump path choices) =
        .error { fault := .unreadable (resolvePath p path).toText reason } := by
      rw [Engine.effectOf_jump, hread]
    rw [step_of_impossible hs ho he]
    exact .inl (by simp)
  | ok text =>
    rw [(step_of_jump hs ho hread).1]
    refine .inr ⟨hs, rfl, fun other hother => ?_⟩
    rw [← hread]
    exact FileSystem.readText_congr hother hopened

/-- A player that opens the file at whose start it has been is there again one step later. -/
theorem AtStart.abreast {p : Player} {place : Place} (hfree : p.config.relativeToScript = false)
    (hp : p.AtStart place) {k : Nat} (h : (p.run k).opens? = some place) :
    p.Abreast (p.run (k + 1)) ∧ (p.run (k + 1)).state = .running := by
  obtain ⟨path, choices, hs, ho, hopened⟩ := jump_of_opens h
  obtain ⟨hconfig, hfiles⟩ := p.config_run k
  have hread : (p.run k).files.readText (resolvePath (p.run k) path) (p.run k).config.encoding =
      .ok p.cursor.text := by
    rw [hconfig, hfiles] at hopened ⊢
    exact hp.reads _ hopened
  rw [run_succ, (step_of_jump hs ho hread).1]
  refine ⟨⟨hfree, hconfig, hfiles, hs.trans hp.running.symm, ?_⟩, hs⟩
  show Cursor.ofText .. = _
  rw [hp.cursor]

/-! ## Files that a player opens -/

theorem mem_openings {p : Player} {n : Nat} {place : Place} :
    place ∈ openings (p.footprints n) ↔ ∃ k < n, (p.run k).opens? = some place := by
  simp only [openings, List.mem_filterMap]
  induction n generalizing p with
  | zero => simp [footprints]
  | succ n ih =>
    simp only [footprints, List.exists_mem_cons_iff, ih]
    constructor
    · rintro (h | ⟨k, hk, h⟩)
      · exact ⟨0, by omega, h⟩
      · exact ⟨k + 1, by omega, h⟩
    · rintro ⟨k, hk, h⟩
      cases k with
      | zero => exact .inl h
      | succ k => exact .inr ⟨k, by omega, h⟩

theorem mem_regular_of_mem_openings {p : Player} {n : Nat} {place : Place}
    (h : place ∈ openings (p.footprints n)) : place ∈ p.files.regular := by
  obtain ⟨k, -, hopens⟩ := mem_openings.1 h
  obtain ⟨path, -, -, -, hopened⟩ := jump_of_opens hopens
  rw [← (p.config_run k).2]
  exact FileSystem.mem_regular_of_opened hopened

/-- A player that stops sooner or later does not come back to a file at whose start it has been. -/
theorem AtStart.not_mem_openings {p : Player} {place : Place}
    (hfree : p.config.relativeToScript = false) (hp : p.AtStart place)
    (hstops : ∃ k, (p.run k).state ≠ .running) (n : Nat) :
    place ∉ openings (p.footprints n) := by
  intro h
  obtain ⟨k, -, hopens⟩ := mem_openings.1 h
  obtain ⟨habreast, hrunning⟩ := hp.abreast hfree hopens
  obtain ⟨j, hj⟩ := hstops
  exact hj (running_of_abreast (Nat.succ_pos k) habreast hrunning j)

/-- A player that stops sooner or later opens no file twice. -/
theorem nodup_openings {p : Player} (hfree : p.config.relativeToScript = false)
    (hstops : ∃ k, (p.run k).state ≠ .running) (n : Nat) : (openings (p.footprints n)).Nodup := by
  induction n generalizing p with
  | zero => exact List.nodup_nil
  | succ n ih =>
    have hfree' : p.step.1.config.relativeToScript = false := by
      rw [p.step_leaves.1]
      exact hfree
    have hstops' : ∃ k, (p.step.1.run k).state ≠ .running := by
      obtain ⟨k, hk⟩ := hstops
      refine ⟨k, fun hs => hk ?_⟩
      exact running_of_run (n := k + 1) hs (Nat.le_succ k)
    have hrest := ih hfree' hstops'
    rw [openings_succ]
    cases hopens : p.opens? with
    | none => exact hrest
    | some place =>
      refine List.nodup_cons.2 ⟨?_, hrest⟩
      rcases step_of_opens hopens with hstopped | hstart
      · intro h
        obtain ⟨k, -, hagain⟩ := mem_openings.1 h
        obtain ⟨-, -, hs, -⟩ := jump_of_opens hagain
        exact hstopped (running_of_run (m := 0) hs (Nat.zero_le k))
      · exact hstart.not_mem_openings hfree' hstops' n

end Player

/-! ## How long a play can be -/

/-- What a step does to the place in the text: nothing if it gives no element, a jump enters a text,
and any other element lies ahead in the text. -/
inductive Player.Stride (p : Player) : Prop
  | stays (ho : p.step.2.Stops) (he : p.enters? = none)
      (ht : p.step.1.cursor.text = p.cursor.text) (hp : p.step.1.cursor.offset = p.cursor.offset)
  | enters {element : Element} {text : Text} {place : Place} (ho : p.step.2 = .ok (some element))
      (hp : p.opens? = some place) (he : p.enters? = some text)
      (ht : p.step.1.cursor.text = text) (hl : p.cursor.offset < p.cursor.text.length)
  | walks {element : Element} (ho : p.step.2 = .ok (some element)) (hj : element.isJump = false)
      (he : p.enters? = none) (ht : p.step.1.cursor.text = p.cursor.text)
      (hp : p.cursor.offset < p.step.1.cursor.offset)
      (hl : p.step.1.cursor.offset ≤ p.cursor.text.length)

namespace Player

variable {p : Player}

theorem offset_advance_of_stops {c : Cursor} (h : Engine.Outcome.Stops c.advance.outcome) :
    c.advance.cursor.offset = c.offset := by
  cases hscan : c.scan with
  | error e => simp only [Cursor.advance, hscan]
  | ok found =>
    cases found with
    | none => simp only [Cursor.advance, hscan]
    | some parsed =>
      rw [Cursor.advance_of_scan hscan] at h
      exact absurd rfl (h parsed.element)

theorem offset_advance_of_element {c : Cursor} {element : Element}
    (h : c.advance.outcome = .ok (some element)) :
    c.offset < c.advance.cursor.offset ∧ c.advance.cursor.offset ≤ c.text.length := by
  obtain ⟨parsed, hscan, -⟩ := Cursor.scan_of_outcome h
  rw [Cursor.advance_of_scan hscan]
  exact Cursor.lt_stop_of_scan hscan

/-- A player that stays in its text goes as far as its cursor does. -/
theorem Stride.of_advance {element : Element} (h : p.cursor.advance.outcome = .ok (some element))
    (hj : element.isJump = false) (he : p.enters? = none) (ho : p.step.2 = .ok (some element))
    (hc : p.step.1.cursor = p.cursor.advance.cursor) : p.Stride := by
  obtain ⟨hlt, hle⟩ := offset_advance_of_element h
  rw [← hc] at hlt hle
  exact .walks ho hj he (hc ▸ p.cursor.text_advance) hlt hle

theorem stride (p : Player) : p.Stride := by
  cases p.sort with
  | stopped h =>
    refine .stays ?_ ?_ ?_ ?_ <;> simp only [step_of_verdict h, enters?, effect?_of_verdict h]
    rcases PlayState.verdict?_eq_some h with ⟨error, -, rfl⟩ | ⟨-, rfl⟩ <;> simp
  | failing hs h =>
    refine .stays ?_ ?_ ?_ ?_ <;> simp only [step_of_failing hs h, enters?, effect?, hs, h]
    · simp
    · exact p.cursor.text_advance
    · exact offset_advance_of_stops (by simp [h])
  | ending hs h =>
    refine .stays ?_ ?_ ?_ ?_ <;> simp only [step_of_ending hs h, enters?, effect?, hs, h]
    · simp
    · exact p.cursor.text_advance
    · exact offset_advance_of_stops (by simp [h])
  | @plain element hs h hm =>
    have hj : element.isJump = false := by
      cases element with
      | directive d => exact absurd rfl hm
      | dialogue name body => rfl
      | comment => rfl
    have henters : p.enters? = none := by simp only [enters?, effect?_of_plain hs h hm]
    have hstep := step_of_plain hs h hm
    exact .of_advance h hj henters (by rw [hstep]) (by rw [hstep])
  | impossible hs h he =>
    refine .stays ?_ ?_ ?_ ?_ <;>
      simp [step_of_impossible hs h he, enters?, effect?, hs, h, he, Except.toOption]
  | @possible d effect hs h he =>
    cases d with
    | loadBackground path =>
      obtain rfl : effect = .background path := (Except.ok.inj he).symm
      have henters : p.enters? = none := by
        simp only [enters?, effect?, hs, h, he, Except.toOption]
      have hstep := step_of_possible hs h he
      exact .of_advance h rfl henters (by rw [hstep]) (by rw [hstep]; rfl)
    | jump path choices =>
      cases hread : p.files.readText (resolvePath p path) p.config.encoding with
      | error reason =>
        rw [Engine.effectOf_jump, hread] at he
        cases he
      | ok text =>
        obtain ⟨place, hopened⟩ := FileSystem.opened_of_readText hread
        obtain ⟨hstep, henters⟩ := step_of_jump hs h hread
        have hopens : p.opens? = some place := by simp only [opens?, hs, h, hopened]
        obtain ⟨hlt, hle⟩ := offset_advance_of_element h
        exact .enters (by rw [hstep]) hopens henters (by rw [hstep]) (by omega)

/-- Each jump that a player makes opens a file. -/
theorem countP_jump_le (p : Player) (n : Nat) :
    (elementsOf (p.outcomes n)).countP Element.isJump ≤ (openings (p.footprints n)).length := by
  induction n generalizing p with
  | zero => exact Nat.le_refl _
  | succ n ih =>
    have hrest := ih p.step.1
    rw [outcomes, openings_succ, List.length_append]
    cases p.stride with
    | stays ho he ht hp =>
      rw [elementsOf_cons_of_stops ho]
      omega
    | walks ho hj he ht hp hl =>
      rw [ho, elementsOf_cons_element, List.countP_cons_of_neg (by simp [hj])]
      omega
    | @enters element text place ho hp he ht hl =>
      have hone : p.opens?.toList.length = 1 := by rw [hp]; rfl
      rw [ho, elementsOf_cons_element, List.countP_cons]
      split <;> omega

/-- A player gives no more elements than there are characters ahead of it in its text and in the
texts that it enters. -/
theorem length_elements_le (p : Player) (n : Nat) :
    (elementsOf (p.outcomes n)).length ≤ p.cursor.text.length - p.cursor.offset +
      ((entries (p.footprints n)).map List.length).sum := by
  induction n generalizing p with
  | zero => exact Nat.zero_le _
  | succ n ih =>
    have hrest := ih p.step.1
    rw [outcomes, entries_succ, List.map_append, List.sum_append]
    cases p.stride with
    | stays ho he ht hp =>
      rw [ht, hp] at hrest
      rw [elementsOf_cons_of_stops ho]
      omega
    | walks ho hj he ht hp hl =>
      rw [ht] at hrest
      rw [ho, elementsOf_cons_element, List.length_cons]
      omega
    | @enters element text place ho hp he ht hl =>
      rw [ht] at hrest
      have hentered : (p.enters?.toList.map List.length).sum = text.length := by simp [he]
      rw [ho, elementsOf_cons_element, List.length_cons, hentered]
      omega

theorem length_outcomes (p : Player) (n : Nat) : (p.outcomes n).length = n := by
  induction n generalizing p with
  | zero => rfl
  | succ n ih => exact congrArg (· + 1) (ih p.step.1)

/-- A player that stops sooner or later opens no file twice, and none that it began with. -/
theorem nodup_opened {p : Player} (hfree : p.config.relativeToScript = false)
    {first : Option Place} (hfirst : ∀ place ∈ first, p.AtStart place)
    (hstops : ∃ k, (p.run k).state ≠ .running) (n : Nat) :
    (first.toList ++ openings (p.footprints n)).Nodup := by
  have hlater := nodup_openings hfree hstops n
  cases first with
  | none => exact hlater
  | some place =>
    have hstart := hfirst place rfl
    exact List.nodup_cons.2 ⟨hstart.not_mem_openings hfree hstops n, hlater⟩

end Player

namespace Engine

/-- A fresh engine that plays a file is at the start of that file. -/
theorem Fresh.atStart {e : Engine} {origin : Option Text} {text : Text} {path : Path}
    {place : Place} (he : Fresh e origin text)
    (hread : e.world.files.readText path e.world.config.encoding = .ok text)
    (hopened : e.world.files.opened? path e.world.config.encoding = some place) :
    e.world.AtStart place := by
  refine ⟨he.state, by rw [he.cursor], fun other hother => ?_⟩
  rw [FileSystem.readText_congr hother hopened, hread, he.cursor]

/-- **A play that stops has entered no file twice.** A fresh engine plays a text, or what a file
holds, where paths do not depend on the script that names them; idle requests may come between its
steps. Every file that is opened is a regular one. If a step gives no element, then no file has been
opened twice, with the one that was played first; so there have been no more jumps than there are
regular files, and no more elements than there are characters in all the texts that were played. And
if some file has been opened twice, every later step gives an element. -/
theorem stops_without_revisit {e : Engine} {origin : Option Text} {text : Text}
    {file : Option Path} {rs : List Request}
    (hfree : e.world.config.relativeToScript = false) (he : Fresh e origin text)
    (hfile : ∀ path ∈ file, e.world.files.readText path e.world.config.encoding = .ok text)
    (hr : ∀ r ∈ rs, r = .next ∨ r.Idle) :
    let files := e.world.files
    let os := outcomes (serveAll e rs).2
    let first := file.bind (files.opened? · e.world.config.encoding)
    let opened := first.toList ++ openings (footprints e rs)
    let played := text :: entries (footprints e rs)
    os.length = rs.countP Request.isNext ∧
    first.isSome = file.isSome ∧
    (∀ place ∈ opened, place ∈ files.regular) ∧
    ((∃ o ∈ os, o.Stops) →
      opened.Nodup ∧ opened.length ≤ files.regular.length ∧
        (elementsOf os).countP Element.isJump ≤ files.regular.length ∧
        (elementsOf os).length ≤ (played.map List.length).sum) ∧
    (¬opened.Nodup →
      ∀ more : List Request, (∀ r ∈ more, r = .next ∨ r.Idle) →
        ∀ o ∈ outcomes (serveAll e (rs ++ more)).2, ∃ element, o = .ok (some element)) := by
  intro files os first opened played
  have habreast := Player.Abreast.refl hfree
  obtain ⟨hfootprints, houtcomes⟩ := footprints_session habreast he.quiet hr
  have hstart : ∀ place ∈ first, e.world.AtStart place := by
    intro place hplace
    obtain ⟨path, hpath, hopened⟩ := Option.bind_eq_some_iff.1 hplace
    exact he.atStart (hfile path hpath) hopened
  have hregular : ∀ place ∈ opened, place ∈ files.regular := by
    intro place h
    rcases List.mem_append.1 h with hfirst | hlater
    · obtain ⟨path, -, hopened⟩ := Option.bind_eq_some_iff.1 (Option.mem_toList.1 hfirst)
      exact FileSystem.mem_regular_of_opened hopened
    · rw [hfootprints] at hlater
      exact Player.mem_regular_of_mem_openings hlater
  refine ⟨?_, ?_, hregular, ?_, ?_⟩
  · show (outcomes _).length = _
    rw [houtcomes, Player.length_outcomes]
  · cases file with
    | none => rfl
    | some path =>
      obtain ⟨place, hopened⟩ := FileSystem.opened_of_readText (hfile path rfl)
      show (files.opened? path _).isSome = true
      rw [hopened]
      rfl
  · rintro ⟨o, ho, hstops⟩
    have ho' : o ∈ e.world.outcomes (rs.countP Request.isNext) := by
      rw [← houtcomes]
      exact ho
    have hstopped : ∃ k, (e.world.run k).state ≠ .running :=
      ⟨_, Player.stopped_of_mem_outcomes ho' hstops⟩
    have hnodup : opened.Nodup := by
      show (first.toList ++ openings (footprints e rs)).Nodup
      rw [hfootprints]
      exact Player.nodup_opened hfree hstart hstopped _
    have hlength := FileSystem.length_le_regular hnodup hregular
    refine ⟨hnodup, hlength, ?_, ?_⟩
    · have hjumps := e.world.countP_jump_le (rs.countP Request.isNext)
      rw [← houtcomes, ← hfootprints] at hjumps
      have happend : opened.length = first.toList.length + (openings (footprints e rs)).length :=
        List.length_append
      exact hjumps.trans (by omega)
    · have helements := e.world.length_elements_le (rs.countP Request.isNext)
      rw [← houtcomes, ← hfootprints, he.cursor] at helements
      exact helements
  · intro hrevisit more hmore o ho
    have hall := List.forall_mem_append.2 ⟨hr, hmore⟩
    rw [(footprints_session habreast he.quiet hall).2] at ho
    by_contra hnone
    have hstops : o.Stops := fun element h => hnone ⟨element, h⟩
    apply hrevisit
    show (first.toList ++ openings (footprints e rs)).Nodup
    rw [hfootprints]
    exact Player.nodup_opened hfree hstart ⟨_, Player.stopped_of_mem_outcomes ho hstops⟩ _

/-- A script that leads back to itself by a detour. -/
def roundabout : Text := "[Ada] round\n@jump(a/../a//b.vn)".toList

def carousel : Engine :=
  start {} (FileSystem.nameless.install (Path.ofText "a/b.vn".toList)
    (.file (Utf8.encode roundabout))) (fun _ path => .error (.missingFile path))
    (.ofText roundabout (some "a/b.vn".toList))

theorem readText_carousel :
    carousel.world.files.readText (Path.ofText "a/b.vn".toList) carousel.world.config.encoding =
      .ok roundabout := by
  decide +kernel

/-- One play comes back to its file and never stops; the other reads one file and stops. -/
theorem stops_without_revisit_carousel :
    (carousel.world.config.relativeToScript = false ∧
        Fresh carousel (some "a/b.vn".toList) roundabout ∧
        (∀ path ∈ some (Path.ofText "a/b.vn".toList),
          carousel.world.files.readText path carousel.world.config.encoding = .ok roundabout) ∧
        (∀ r ∈ [Request.next, .peek, .next], r = .next ∨ r.Idle) ∧ Fresh reader none opening ∧
        ∀ r ∈ visit, r = .next ∨ r.Idle) ∧
      (∀ more : List Request, (∀ r ∈ more, r = .next ∨ r.Idle) →
        ∀ o ∈ outcomes (serveAll carousel ([.next, .peek, .next] ++ more)).2,
          ∃ element, o = .ok (some element)) ∧
      (openings (footprints reader visit)).Nodup := by
  have hfile : ∀ path ∈ some (Path.ofText "a/b.vn".toList),
      carousel.world.files.readText path carousel.world.config.encoding = .ok roundabout := by
    intro path h
    obtain rfl := Option.some.inj h
    exact readText_carousel
  have hr : ∀ r ∈ [Request.next, .peek, .next], r = .next ∨ r.Idle := by
    intro r h
    simp only [List.mem_cons, List.not_mem_nil, or_false] at h
    rcases h with rfl | rfl | rfl
    · exact .inl rfl
    · exact .inr trivial
    · exact .inl rfl
  have hcarousel := stops_without_revisit rfl (fresh_start ..) hfile hr
  have hreader : Fresh reader none opening := fresh_start ..
  have hstops : ∃ o ∈ outcomes (serveAll reader visit).2, Outcome.Stops o := by
    let lost : ScriptError :=
      { fault := .unreadable "c.vn".toList
          (.file (.refused .absent (Path.ofText "c.vn".toList))) }
    exact ⟨.error lost, by decide +kernel, by simp⟩
  have hstay :=
    @stops_without_revisit reader none opening none visit rfl hreader (by simp) visit_idle
  refine ⟨⟨rfl, fresh_start .., hfile, hr, hreader, visit_idle⟩, ?_, ?_⟩
  · exact hcarousel.2.2.2.2 (by decide +kernel)
  · exact (hstay.2.2.2.1 hstops).1

end Engine

end Playscript
