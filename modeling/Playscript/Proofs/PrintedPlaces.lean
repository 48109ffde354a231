import Playscript.Proofs.ErrorPlaces
import Playscript.Proofs.JsonText
import Playscript.Proofs.Shapes

/-!
# Places that are printed

A run prints each element with the position at which the play stands after it: past the element, or
at the start of the script that a jump has led to. Positions tell the offsets of a text apart, so
the line of an element shows where the element itself begins in no case but one: that of a jump with
which its script opens.

* `passages`: the elements that are played, each with the text that it was found in.
* `out_play_eq`: the lines that are printed for them.
* `Text.positionOf_injective`, `CommandLine.positionText_injective`: positions, and how they are
  shown, tell offsets apart.
* `Passage.placeAfter_eq_iff`: when the position after an element is its own.
* `lines_show_place_after`: the lines of a run.
-/

namespace Playscript

/-! ## Positions tell offsets apart -/

namespace Text

theorem endPosition_append_ne (before : Text) {more : Text} (h : more ≠ []) :
    endPosition (before ++ more) ≠ endPosition before := by
  intro heq
  obtain ⟨hline, hcolumn⟩ := Position.mk.inj heq
  have hnone : more.count '\n' = 0 := by
    rw [List.count_append] at hline
    omega
  rw [lastLine_append (List.count_eq_zero.1 hnone), List.length_append] at hcolumn
  have := List.length_pos_iff.2 h
  omega

theorem positionOf_ne_of_lt {t : Text} {m n : Nat} (hlt : m < n) (hn : n ≤ t.length) :
    t.positionOf n ≠ t.positionOf m := by
  have hmore : (t.drop m).take (n - m) ≠ [] := by
    rw [← List.length_pos_iff, List.length_take, List.length_drop]
    omega
  have hsplit : t.take n = t.take m ++ (t.drop m).take (n - m) := by
    rw [← List.take_add, Nat.add_sub_cancel' (Nat.le_of_lt hlt)]
  rw [positionOf, positionOf, clamp_natCast, clamp_natCast, Nat.min_eq_left hn,
    Nat.min_eq_left (by omega), hsplit]
  exact endPosition_append_ne _ hmore

theorem positionOf_injective {t : Text} {m n : Nat} (hm : m ≤ t.length) (hn : n ≤ t.length)
    (h : t.positionOf m = t.positionOf n) : m = n := by
  rcases Nat.lt_trichotomy m n with hlt | heq | hgt
  · exact absurd h.symm (positionOf_ne_of_lt hlt hn)
  · exact heq
  · exact absurd h (positionOf_ne_of_lt hgt hm)

theorem ofNat_injective {m n : Nat} (h : ofNat m = ofNat n) : m = n := by
  rw [← Json.digitsValue_ofNat m, h, Json.digitsValue_ofNat]

end Text

namespace CommandLine

theorem positionText_injective {p q : Position} (h : positionText p = positionText q) : p = q := by
  have hline : ∀ p : Position, (positionText p).takeWhile Char.isDigit = Text.ofNat p.line := by
    intro p
    rw [positionText, List.takeWhile_append_of_pos fun _ => Json.isDigit_of_mem_ofNat,
      List.takeWhile_cons_of_neg (by decide), List.append_nil]
  have hlines : Text.ofNat p.line = Text.ofNat q.line := by rw [← hline p, h, hline]
  have hcolumns : Text.ofNat p.column = Text.ofNat q.column := by
    rw [positionText, positionText, hlines] at h
    exact (List.cons.inj (List.append_cancel_left h)).2
  cases p
  cases q
  obtain rfl := Text.ofNat_injective hlines
  obtain rfl := Text.ofNat_injective hcolumns
  rfl

end CommandLine

/-! ## Passages -/

/-- An element, the text that it was found in, and the offset from which it was looked for. -/
structure Passage where
  source : Text
  offset : Nat
  parsed : Parsed
  found : source.scan offset = .ok (some parsed)

namespace Passage

def element (x : Passage) : Element := x.parsed.element

/-- Where the element begins, blanks before it left out. -/
def start (x : Passage) : Nat := x.source.nextStart x.offset

/-- The position at which the element begins. -/
def ownPlace (x : Passage) : Position := x.source.positionOf x.start

/-- The position at which a play stands after the element. -/
def placeAfter (x : Passage) : Position :=
  if x.element.isJump then ⟨1, 1⟩ else x.source.positionOf x.parsed.stop

/-- The element begins with its mark, and ends behind that. -/
theorem opens (x : Passage) : x.source[x.start]? = some x.element.mark.char ∧
    x.start < x.parsed.stop ∧ x.parsed.stop ≤ x.source.length :=
  Text.getElem?_nextStart_of_scan x.found

/-- A jump at the start of its script leads to the start of another one, and both are at the first
character. Nothing else ends where it began. -/
theorem placeAfter_eq_iff (x : Passage) :
    x.placeAfter = x.ownPlace ↔ x.element.isJump = true ∧ x.start = 0 := by
  obtain ⟨-, hlt, hle⟩ := x.opens
  have hfirst : x.source.positionOf ((0 : Nat) : Int) = ⟨1, 1⟩ :=
    Text.positionOf_of_le_zero x.source (Int.le_refl 0)
  cases hjump : x.element.isJump with
  | false =>
    simp only [placeAfter, ownPlace, hjump, Bool.false_eq_true, if_false, false_and, iff_false]
    exact Text.positionOf_ne_of_lt hlt hle
  | true =>
    simp only [placeAfter, ownPlace, hjump, if_true, true_and]
    rw [← hfirst]
    constructor
    · exact fun h => (Text.positionOf_injective (Nat.zero_le _) (by omega) h).symm
    · exact fun h => by rw [h]

end Passage

theorem Element.eq_jump_of_isJump {e : Element} (h : e.isJump = true) :
    ∃ path choices, e = .directive (.jump path choices) := by
  cases e with
  | directive d =>
    cases d with
    | jump path choices => exact ⟨path, choices, rfl⟩
    | loadBackground path => cases h
  | dialogue name body => cases h
  | comment => cases h

/-- Where a play goes on after an element that its cursor has found, if it can: just past the
element or, after a jump, at the start of the target. -/
def Cursor.onward? (config : Config) (files : FileSystem) (c : Cursor) (p : Parsed) :
    Option Cursor :=
  match p.element with
  | .directive (.jump path _) =>
    match files.readText (jumpTarget config c.origin path) config.encoding with
    | .error _ => none
    | .ok text => some (.ofText text (some (jumpTarget config c.origin path).toText))
  | _ => some { c with offset := p.stop }

/-- The passages that are played from a cursor on, `n` of them at the most. -/
def passages (config : Config) (files : FileSystem) : Nat → Cursor → List Passage
  | 0, _ => []
  | n + 1, c =>
    match found : c.text.scan c.offset with
    | .ok (some p) =>
      match c.onward? config files p with
      | none => []
      | some next => ⟨c.text, c.offset, p, found⟩ :: passages config files n next
    | _ => []

section
variable {config : Config} {files : FileSystem} {n : Nat} {c next : Cursor} {p : Parsed}

theorem Cursor.onward?_of_plain (hj : p.element.isJump = false) :
    c.onward? config files p = some { c with offset := p.stop } := by
  unfold onward?
  split
  · rename_i hjump
    rw [hjump] at hj
    cases hj
  · rfl

theorem Cursor.onward?_of_jump {path : Text} {choices : Option (Text × Text)}
    (hj : p.element = .directive (.jump path choices)) :
    c.onward? config files p =
      match files.readText (jumpTarget config c.origin path) config.encoding with
      | .error _ => none
      | .ok text => some (.ofText text (some (jumpTarget config c.origin path).toText)) := by
  simp only [onward?, hj]

theorem passages_of_end (h : ∀ p, c.text.scan c.offset ≠ .ok (some p)) :
    passages config files (n + 1) c = [] := by
  rw [passages]
  split
  · rename_i p found
    exact absurd found (h p)
  · rfl

theorem passages_of_scan (h : c.text.scan c.offset = .ok (some p)) :
    passages config files (n + 1) c =
      match c.onward? config files p with
      | none => []
      | some next => ⟨c.text, c.offset, p, h⟩ :: passages config files n next := by
  rw [passages]
  split
  · rename_i q found
    obtain rfl : p = q := by
      rw [h] at found
      exact Option.some.inj (Except.ok.inj found)
    rfl
  · rename_i hnone
    exact absurd h (hnone p)

/-- A play goes on behind a plain element, and at the start of what a jump leads to. -/
theorem Cursor.onward?_eq_some (h : c.onward? config files p = some next) :
    p.element.isJump = false ∧ next = { c with offset := p.stop } ∨
      p.element.isJump = true ∧ ∃ (path : Path) (text : Text),
        files.readText path config.encoding = .ok text ∧
          next = .ofText text (some path.toText) := by
  cases hj : p.element.isJump with
  | false =>
    rw [onward?_of_plain hj] at h
    exact .inl ⟨rfl, (Option.some.inj h).symm⟩
  | true =>
    obtain ⟨path, choices, helement⟩ := Element.eq_jump_of_isJump hj
    rw [onward?_of_jump helement] at h
    cases hread : files.readText (jumpTarget config c.origin path) config.encoding with
    | error reason =>
      rw [hread] at h
      cases h
    | ok text =>
      rw [hread] at h
      exact .inr ⟨rfl, _, text, hread, (Option.some.inj h).symm⟩

theorem Cursor.readable_of_onward
    (hc : ∃ path, files.readText path config.encoding = .ok c.text)
    (hnext : c.onward? config files p = some next) :
    ∃ path, files.readText path config.encoding = .ok next.text := by
  rcases onward?_eq_some hnext with ⟨-, rfl⟩ | ⟨-, path, text, hread, rfl⟩
  · exact hc
  · exact ⟨path, hread⟩

/-- Where a play goes on is the place after the passage. -/
theorem Cursor.position_of_onward (h : c.text.scan c.offset = .ok (some p))
    (hnext : c.onward? config files p = some next) :
    next.position = (⟨c.text, c.offset, p, h⟩ : Passage).placeAfter := by
  rcases onward?_eq_some hnext with ⟨hj, rfl⟩ | ⟨hj, path, text, hread, rfl⟩
  · rw [Passage.placeAfter, Passage.element, hj]
    rfl
  · rw [Passage.placeAfter, Passage.element, hj]
    exact Text.positionOf_of_le_zero text (Int.le_refl 0)

theorem Cursor.unlatched_of_onward (hl : c.latched = none)
    (hnext : c.onward? config files p = some next) : next.latched = none := by
  rcases onward?_eq_some hnext with ⟨-, rfl⟩ | ⟨-, path, text, hread, rfl⟩
  · exact hl
  · rfl

end

/-- What is played from a script that can be read is found in such scripts. -/
theorem readable_source {config : Config} {files : FileSystem} {n : Nat} {c : Cursor}
    (hc : ∃ path, files.readText path config.encoding = .ok c.text) :
    ∀ x ∈ passages config files n c,
      ∃ path, files.readText path config.encoding = .ok x.source := by
  induction n generalizing c with
  | zero => simp [passages]
  | succ n ih =>
    by_cases hscan : ∃ p, c.text.scan c.offset = .ok (some p)
    · obtain ⟨p, hp⟩ := hscan
      rw [passages_of_scan hp]
      cases hnext : c.onward? config files p with
      | none => simp
      | some next =>
        have hnext' := Cursor.readable_of_onward hc hnext
        exact List.forall_mem_cons.2 ⟨hc, ih hnext'⟩
    · rw [passages_of_end fun p hp => hscan ⟨p, hp⟩]
      simp

/-! ## Runs of a player -/

namespace Player

variable {p : Player}

/-- The passages that a player comes through. -/
abbrev passages (p : Player) (n : Nat) : List Passage :=
  Playscript.passages p.config p.files n p.cursor

/-- A step at an element takes the play on past it, or else is the last one. -/
theorem step_of_scan (hs : p.state = .running) (hl : p.cursor.latched = none) {found : Parsed}
    (h : p.cursor.text.scan p.cursor.offset = .ok (some found)) :
    (∃ next, p.cursor.onward? p.config p.files found = some next ∧
        p.step.2 = .ok (some found.element) ∧ p.step.1.state = .running ∧
        p.step.1.cursor = next) ∨
      p.cursor.onward? p.config p.files found = none ∧ p.step.2.Stops := by
  have hstream := congrArg Stream.elements (Text.streamFrom_of_some h)
  cases hj : found.element.isJump with
  | false => exact .inl ⟨_, Cursor.onward?_of_plain hj, step_of_stream_cons hs hl hstream hj⟩
  | true =>
    obtain ⟨path, choices, helement⟩ := Element.eq_jump_of_isJump hj
    have ho : p.cursor.advance.outcome = .ok (some found.element) := by
      rw [Cursor.advance_of_stream_cons hl hstream]
    rw [helement] at ho
    have heffect := Engine.effectOf_jump p path choices
    rw [Engine.resolvePath_eq] at heffect
    rw [Cursor.onward?_of_jump helement, helement]
    cases hread : p.files.readText (jumpTarget p.config p.cursor.origin path) p.config.encoding with
    | error reason =>
      rw [hread] at heffect
      rw [step_of_impossible hs ho heffect]
      exact .inr ⟨rfl, Engine.Outcome.stops_error _⟩
    | ok text =>
      rw [hread] at heffect
      rw [step_of_possible hs ho heffect]
      exact .inl ⟨_, rfl, rfl, hs, rfl⟩

theorem step_of_end (hs : p.state = .running) (hl : p.cursor.latched = none)
    (h : ∀ found, p.cursor.text.scan p.cursor.offset ≠ .ok (some found)) : p.step.2.Stops := by
  have hstream : p.cursor.stream.elements = [] := by
    cases hscan : p.cursor.text.scan p.cursor.offset with
    | error error => exact congrArg Stream.elements (Text.streamFrom_of_error hscan)
    | ok found =>
      cases found with
      | none => exact congrArg Stream.elements (Text.streamFrom_of_none hscan)
      | some found => exact absurd hscan (h found)
  rw [step_of_stream_nil hs hl hstream, Stream.ending]
  cases p.cursor.stream.error <;> simp

/-- The first passage is what the first step gives, and leaves the player at the place after it. -/
theorem passages_succ (hs : p.state = .running) (hl : p.cursor.latched = none) (n : Nat) :
    p.passages (n + 1) = [] ∧ p.step.2.Stops ∨
      ∃ x, p.passages (n + 1) = x :: p.step.1.passages n ∧ p.step.2 = .ok (some x.element) ∧
        p.step.1.cursor.position = x.placeAfter ∧ p.step.1.state = .running ∧
        p.step.1.cursor.latched = none := by
  by_cases hscan : ∃ found, p.cursor.text.scan p.cursor.offset = .ok (some found)
  · obtain ⟨found, hfound⟩ := hscan
    rw [passages, passages_of_scan hfound]
    rcases step_of_scan hs hl hfound with ⟨target, honward, ho, hs', hcursor⟩ | ⟨honward, hstops⟩
    · have hplace := Cursor.position_of_onward hfound honward
      have hl' := Cursor.unlatched_of_onward hl honward
      obtain ⟨hconfig, hfiles, -⟩ := p.step_leaves
      refine .inr ⟨⟨_, _, found, hfound⟩, ?_, ho, hcursor ▸ hplace, hs', hcursor ▸ hl'⟩
      simp only [honward, passages, hconfig, hfiles, hcursor]
    · rw [honward]
      exact .inl ⟨rfl, hstops⟩
  · have hnone : ∀ found, p.cursor.text.scan p.cursor.offset ≠ .ok (some found) :=
      fun found hfound => hscan ⟨found, hfound⟩
    exact .inl ⟨passages_of_end hnone, step_of_end hs hl hnone⟩

theorem element_passages (hs : p.state = .running) (hl : p.cursor.latched = none) (n : Nat) :
    (p.passages n).map Passage.element = Engine.elementsOf (p.outcomes n) := by
  induction n generalizing p with
  | zero => rfl
  | succ n ih =>
    rcases passages_succ hs hl n with ⟨hnil, hstops⟩ | ⟨x, hcons, ho, -, hs', hl'⟩
    · rw [hnil, Engine.elementsOf_of_stops hstops, List.map_nil]
    · rw [hcons, outcomes, ho, Engine.elementsOf_cons_element, List.map_cons, ih hs' hl']

end Player

namespace CommandLine

open Engine (next elementsOf)

/-- The line that is printed for a passage. -/
def passageLine (x : Passage) : Text := lineAt (x.placeAfter, x.element)

/-- The line that would show where the element begins. -/
def ownLine (x : Passage) : Text := lineAt (x.ownPlace, x.element)

theorem passageLine_eq_iff (x : Passage) :
    passageLine x = ownLine x ↔ x.element.isJump = true ∧ x.start = 0 := by
  rw [← x.placeAfter_eq_iff, passageLine, ownLine, lineAt, lineAt]
  constructor
  · exact fun h => positionText_injective (List.append_cancel_right h)
  · exact fun h => by rw [h]

/-- A play prints a line for each passage. The induction is on the number of steps; what each step
keeps is that the engine is calm and its player running. -/
theorem out_play_eq (threshold n : Nat) {e : Engine} (he : e.Calm) (hs : e.world.state = .running)
    (hl : e.world.cursor.latched = none) :
    (play threshold n e).1.out = (e.world.passages n).map passageLine := by
  induction n generalizing e with
  | zero => rfl
  | succ n ih =>
    obtain ⟨hcalm, hworld, houtcome⟩ := Engine.calm_next_forget he
    rcases Player.passages_succ hs hl n with ⟨hnil, hstops⟩ | ⟨x, hcons, ho, hplace, hs', hl'⟩
    · rw [hnil, out_play_of_stops (houtcome ▸ hstops), List.map_nil]
    · rw [← hworld] at hcons hplace hs' hl'
      have hline : positionText (next e.forget).1.world.cursor.position ++ '\t' ::
          x.element.describe = passageLine x := by
        rw [hplace, passageLine, lineAt]
      simp only [play_of_element (houtcome.trans ho), hcons, List.map_cons, ← ih hcalm hs' hl',
        hline]

theorem out_run_of_open {fs : FileSystem} {config : Config} {script : Text} {e : Engine}
    (h : openEngine fs config script = .ok e) (threshold steps : Nat) :
    ∃ o, (run fs config threshold steps script = .done o ∨
        run fs config threshold steps script = .unfinished o) ∧
      o.out = (play threshold steps e).1.out := by
  rw [run_of_open h]
  rcases play threshold steps e with ⟨o, ended⟩
  cases ended with
  | true => exact ⟨{ o with err := _ }, .inl rfl, rfl⟩
  | false => exact ⟨{ o with err := _ }, .inr rfl, rfl⟩

end CommandLine

open CommandLine (run passageLine ownLine openEngine_eq out_run_of_open out_play_eq
  passageLine_eq_iff)
open Engine (elementsOf)

/-- **What the lines of a run point at.** A script that can be read is played from its start on. The
run prints a line for each element of the playback, and each element was found in a script that can
be read, where it begins with its mark. Its line shows another place, that after it, unless the
element is a jump with which its script opens; so the lines of a run show where the elements begin
just if all the elements are such jumps. -/
theorem lines_show_place_after {fs : FileSystem} {config : Config} {script text : Text}
    (threshold steps : Nat)
    (hread : fs.readText (Path.ofText script) config.encoding = .ok text) :
    let origin := some (Path.ofText script).toText
    let played := passages config fs steps (.ofText text origin)
    played.map Passage.element = elementsOf (playback config fs steps origin text) ∧
    (∀ x ∈ played, (∃ path, fs.readText path config.encoding = .ok x.source) ∧
      x.source[x.start]? = some x.element.mark.char ∧
      (passageLine x = ownLine x ↔ x.element.isJump = true ∧ x.start = 0)) ∧
    ∃ o, (run fs config threshold steps script = .done o ∨
        run fs config threshold steps script = .unfinished o) ∧
      o.out = played.map passageLine ∧
      (o.out = played.map ownLine ↔ ∀ x ∈ played, x.element.isJump = true ∧ x.start = 0) := by
  intro origin played
  obtain ⟨e, hopen, hcalm, hfresh, rfl, rfl⟩ := openEngine_eq hread
  have hs := hfresh.state
  have hl : e.world.cursor.latched = none := by rw [hfresh.cursor]
  have hplayed : e.world.passages steps = played := by
    rw [Player.passages, hfresh.cursor]
  have hlines := fun x : Passage => passageLine_eq_iff x
  refine ⟨?_, fun x hx => ⟨?_, x.opens.1, hlines x⟩, ?_⟩
  · rw [← hplayed, Player.element_passages hs hl, hfresh.outcomes_eq]
  · exact readable_source ⟨_, hread⟩ x hx
  · obtain ⟨o, hrun, hout⟩ := out_run_of_open hopen threshold steps
    rw [out_play_eq threshold steps hcalm hs hl, hplayed] at hout
    refine ⟨o, hrun, hout, ?_⟩
    rw [hout, List.map_inj_left]
    exact forall₂_congr fun x _ => hlines x

/-- A script that opens with a jump, and its target. -/
def doorstep : Text := "@jump(b.vn)".toList

def crossing : FileSystem :=
  (FileSystem.nameless.install (Path.ofText "s.vn".toList) (.file (Utf8.encode doorstep))).install
    (Path.ofText "b.vn".toList) (.file (Utf8.encode "\n [A] hi\n# x".toList))

/-- The jump is shown in its place and the other elements are not. -/
theorem lines_show_place_after_crossing :
    let played := passages {} crossing 4 (.ofText doorstep (some "s.vn".toList))
    crossing.readText (Path.ofText "s.vn".toList) ({} : Config).encoding = .ok doorstep ∧
      played.map (fun x => (x.element.isJump, x.start)) = [(true, 0), (false, 2), (false, 9)] ∧
      (∀ x ∈ played, passageLine x = ownLine x ↔ x.element.isJump = true ∧ x.start = 0) ∧
      ∃ o, (run crossing {} Level.warning.rank 4 "s.vn".toList = .done o ∨
          run crossing {} Level.warning.rank 4 "s.vn".toList = .unfinished o) ∧
        o.out = played.map passageLine ∧ o.out ≠ played.map ownLine := by
  intro played
  have hread : crossing.readText (Path.ofText "s.vn".toList) ({} : Config).encoding =
      .ok doorstep := by decide +kernel
  have hstarts : played.map (fun x => (x.element.isJump, x.start)) =
      [(true, 0), (false, 2), (false, 9)] := by decide +kernel
  obtain ⟨-, hlines, o, hrun, hout, hall⟩ := lines_show_place_after Level.warning.rank 4 hread
  refine ⟨hread, hstarts, fun x hx => (hlines x hx).2.2, o, hrun, hout, fun hown => ?_⟩
  have hdialogue : (false, 2) ∈ played.map fun x => (x.element.isJump, x.start) := by
    rw [hstarts]
    simp
  obtain ⟨x, hx, hpair⟩ := List.mem_map.1 hdialogue
  have hjump := (hall.1 hown x hx).1
  rw [(Prod.mk.inj hpair).1] at hjump
  cases hjump

/-- A dialogue and a comment begin at the two lines of a script, and the lines of a run show them at
the second and the third. -/
theorem lines_off_by_element :
    let script := "[A] hi\n# x\n".toList
    let fs := FileSystem.nameless.install (Path.ofText "s.vn".toList) (.file (Utf8.encode script))
    let played := passages {} fs 3 (.ofText script (some "s.vn".toList))
    fs.readText (Path.ofText "s.vn".toList) ({} : Config).encoding = .ok script ∧
      played.map Passage.ownPlace = [⟨1, 1⟩, ⟨2, 1⟩] ∧
      (run fs {} Level.warning.rank 3 "s.vn".toList).outcome? =
        some { status := 0, out := ["2:1\t[A] hi".toList, "3:1\t# comment".toList] } ∧
      played.map ownLine = ["1:1\t[A] hi".toList, "2:1\t# comment".toList] := by
  decide +kernel

end Playscript
