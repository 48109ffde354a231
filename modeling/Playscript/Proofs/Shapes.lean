import Playscript.Proofs.Commands
import Playscript.Proofs.Grammar
import Playscript.Proofs.Stopping
import Playscript.Proofs.Writing

/-!
# The shape of elements

Not every element can be read off a text. A name and the arguments of a directive are trimmed and
hold nothing that would have ended them, a body is words one space apart, and behind a dialogue
there is no other one. So each element is shown on one line, and dialogues and plain jumps are read
back from the line that they are shown on.

* `shapely_of_scan`: the shape of what a scan finds.
* `mark_of_scan_stop`: what follows a dialogue is no dialogue.
* `Element.Shapely.reread`: an element that is shown whole is read back.
* `out_play`: a run prints a line for each element that its steps give.
* `elements_shapely`: all this for cursors and runs.
-/

namespace Playscript

open Text (Flush Enclosed Shows Marked OneLine)

/-! ## The shapes of texts -/

namespace Text

/-- A name as it stands between brackets, but for blanks. -/
structure NameShape (t : Text) : Prop extends Flush t where
  inside : ∀ c ∈ t, c ≠ ']' ∧ isLineBreak c = false

/-- An argument as it stands between commas, but for blanks. -/
structure ArgumentShape (t : Text) : Prop extends Flush t where
  inside : ∀ c ∈ t, c ≠ ',' ∧ c ≠ ')' ∧ isLineBreak c = false

/-- Words one space apart, and nothing else. -/
def BodyShape (t : Text) : Prop :=
  ∃ ws : List Text, t = [' '].intercalate ws ∧ ∀ w ∈ ws, w ≠ [] ∧ ∀ c ∈ w, isBlank c = false

variable {t : Text}

theorem trim_ne_nil (h : t.Shows) : trim t ≠ [] := by
  obtain ⟨c, hc, hb⟩ := h
  exact List.ne_nil_of_mem (mem_trim hc hb)

theorem nameShape_trim (h : ∀ c ∈ t, c ≠ ']' ∧ isLineBreak c = false) : (trim t).NameShape :=
  ⟨flush_trim t, fun c hc => h c (mem_of_mem_trim hc)⟩

theorem argumentShape_trim (h : t.Enclosed) (hcomma : ',' ∉ t) : (trim t).ArgumentShape := by
  refine ⟨flush_trim t, fun c hc => ?_⟩
  have hmem := mem_of_mem_trim hc
  refine ⟨?_, h c hmem⟩
  rintro rfl
  exact hcomma hmem

theorem bodyShape_squeeze (t : Text) : (squeeze t).BodyShape :=
  ⟨words t, rfl, fun _ hw => ⟨ne_nil_of_mem_words hw, fun _ => not_blank_of_mem_words hw⟩⟩

theorem NameShape.isName (h : t.NameShape) : t.IsName := ⟨trim_of_flush h.toFlush, h.inside⟩

theorem ArgumentShape.isArgument (h : t.ArgumentShape) : t.IsArgument :=
  ⟨trim_of_flush h.toFlush, h.inside⟩

theorem BodyShape.squeeze_eq (h : t.BodyShape) : squeeze t = t := by
  obtain ⟨ws, rfl, hws⟩ := h
  exact squeeze_unwords hws

theorem OneLine.not_feed (h : t.OneLine) : '\n' ∉ t := by
  intro hmem
  cases h '\n' hmem

theorem NameShape.oneLine (h : t.NameShape) : t.OneLine := fun c hc => (h.inside c hc).2

theorem ArgumentShape.oneLine (h : t.ArgumentShape) : t.OneLine := fun c hc => (h.inside c hc).2.2

theorem BodyShape.oneLine (h : t.BodyShape) : t.OneLine := by
  rw [← h.squeeze_eq]
  exact oneLine_squeeze t

end Text

/-! ## The shapes of elements -/

/-- What an element looks like that was read. A choice may have an empty path, as may a background
whose arguments begin with a comma. -/
inductive Element.Shapely : Element → Prop
  | dialogue {name body : Text} (hname : name.NameShape) (hbody : body.BodyShape) :
    Shapely (.dialogue name body)
  | jump {path : Text} (hpath : path.ArgumentShape) (hne : path ≠ []) :
    Shapely (.directive (.jump path none))
  | choice {a b path : Text} (ha : a.ArgumentShape) (hb : b.ArgumentShape)
      (hpath : path.ArgumentShape) : Shapely (.directive (.jump path (some (a, b))))
  | background {path : Text} (hpath : path.ArgumentShape) :
    Shapely (.directive (.loadBackground path))
  | comment : Shapely .comment

theorem DialogueBlock.shapely {here name said rest : Text}
    (h : DialogueBlock here name said rest) :
    (Element.dialogue (Text.trim name) said.squeeze).Shapely :=
  .dialogue (Text.nameShape_trim h.name) (Text.bodyShape_squeeze said)

theorem Directive.Spelled.shapely {d : Directive} {w : Text} (h : d.Spelled w) :
    (Element.directive d).Shapely := by
  cases h with
  | jump ha hcomma hshows =>
    exact .jump (Text.argumentShape_trim ha hcomma) (Text.trim_ne_nil hshows)
  | choice ha hb hpath hcomma =>
    simp only [List.forall_mem_cons] at hcomma
    obtain ⟨hfirst, hsecond, hlast, -⟩ := hcomma
    exact .choice (Text.argumentShape_trim ha hfirst) (Text.argumentShape_trim hb hsecond)
      (Text.argumentShape_trim hpath hlast)
  | @background raw hraw hshows =>
    have hpart : Enclosed (raw.takeWhile (· ≠ ',')) :=
      fun c hc => hraw c ((List.takeWhile_sublist _).subset hc)
    have hcomma : ',' ∉ raw.takeWhile (· ≠ ',') := by
      intro hc
      simpa using List.mem_takeWhile_imp hc
    exact .background (Text.argumentShape_trim hpart hcomma)

theorem Element.Shapely.oneLine {e : Element} (h : e.Shapely) : e.describe.OneLine := by
  cases h with
  | dialogue hname hbody => exact oneLine_dialogue hname.oneLine hbody.oneLine
  | jump hpath => exact oneLine_jump hpath.oneLine
  | choice ha hb hpath => exact oneLine_choice ha.oneLine hb.oneLine hpath.oneLine
  | background hpath => exact oneLine_loadBackground hpath.oneLine
  | comment => exact oneLine_comment

/-! ## Scans -/

section
variable {source : Text} {offset : Nat} {p : Parsed}

/-- What a scan finds is parsed at the mark that it comes to. -/
theorem parseAt_of_scan (h : source.scan offset = .ok (some p)) :
    source[source.nextStart offset]? = some p.element.mark.char ∧
      p.element.mark.parseAt source (source.nextStart offset) = .ok p := by
  obtain ⟨mark, r, hmark, hread, rfl⟩ := Text.scan_eq_some_iff.1 h
  have hkind := Mark.mark_of_read hread
  have hle : source.nextStart offset ≤ source.length :=
    Nat.le_of_lt (List.getElem?_eq_some_iff.1 hmark).1
  subst hkind
  exact ⟨hmark, parseAt_of_read _ hle hread⟩

/-- A dialogue that a scan finds is a block, and the scan stops behind it. -/
theorem exists_block_of_scan (h : source.scan offset = .ok (some p))
    (hd : p.element.mark = .dialogue) :
    ∃ name said rest, DialogueBlock (source.drop (source.nextStart offset)) name said rest ∧
      p.element = .dialogue (Text.trim name) said.squeeze ∧ source.drop p.stop = rest.drop 1 := by
  obtain ⟨hmark, hparse⟩ := parseAt_of_scan h
  rw [hd] at hmark hparse
  obtain ⟨name, said, rest, hblock⟩ := exists_block_at hmark (closesWith_of_parse hmark hparse)
  obtain ⟨stop, -, -, hdrop, hgiven⟩ := hblock.parse
  rw [hparse] at hgiven
  obtain rfl := Except.ok.inj hgiven
  exact ⟨name, said, rest, hblock, rfl, hdrop⟩

theorem shapely_of_scan (h : source.scan offset = .ok (some p)) : p.element.Shapely := by
  cases hm : p.element.mark with
  | dialogue =>
    obtain ⟨name, said, rest, hblock, helement, -⟩ := exists_block_of_scan h hm
    rw [helement]
    exact hblock.shapely
  | directive =>
    obtain ⟨hmark, hparse⟩ := parseAt_of_scan h
    rw [hm] at hmark hparse
    obtain ⟨d, w, rest, helement, hspelled, -⟩ := spelled_of_parse hmark hparse
    rw [helement]
    exact hspelled.shapely
  | comment =>
    cases he : p.element with
    | comment => exact .comment
    | dialogue name body =>
      rw [he] at hm
      cases hm
    | directive d =>
      rw [he] at hm
      cases hm

/-- At a mark a scan does not look further. -/
theorem mark_of_scan_marked (hmarked : Marked (source.drop offset))
    (h : source.scan offset = .ok (some p)) : p.element.mark ≠ .dialogue := by
  have hfirst : ∀ c, (source.drop offset).head? = some c → c = '@' ∨ c = '#' := by
    intro c hc
    rcases hmarked with hat | hhash
    · exact .inl (Option.some.inj (hc.symm.trans hat))
    · exact .inr (Option.some.inj (hc.symm.trans hhash))
  have hshows : ∀ c, (source.drop offset).head? = some c → Text.isBlank c = false := by
    intro c hc
    rcases hfirst c hc with rfl | rfl <;> decide
  have hhere : (source.drop offset).head? = some p.element.mark.char := by
    rw [← (parseAt_of_scan h).1, ← List.head?_drop, Text.drop_nextStart,
      Text.dropWhile_of_head? hshows]
  intro hd
  rw [hd] at hhere
  rcases hfirst _ hhere with hc | hc <;> cases hc

end

/-- A dialogue reaches up to the end of the text or to a marked line, so no other one is next. -/
theorem mark_of_scan_stop {source : Text} {offset : Nat} {p q : Parsed}
    (h : source.scan offset = .ok (some p)) (hd : p.element.mark = .dialogue)
    (hnext : source.scan p.stop = .ok (some q)) : q.element.mark ≠ .dialogue := by
  obtain ⟨name, said, rest, hblock, -, hdrop⟩ := exists_block_of_scan h hd
  rcases hblock.marked_drop with hnil | hmarked
  · rw [Text.scan_of_drop_nil (hdrop.trans hnil)] at hnext
    cases hnext
  · rw [← hdrop] at hmarked
    exact mark_of_scan_marked hmarked hnext

/-! ## Elements that are read back -/

/-- Is all of the element shown, and nothing in another form than it is written? -/
def Element.ShownWhole : Element → Prop
  | .dialogue .. => True
  | .directive (.jump _ none) => True
  | _ => False

theorem Element.Shapely.written {e : Element} (h : e.Shapely) (hwhole : e.ShownWhole) :
    Written e e.describe ∧ e.Writable := by
  cases h with
  | @dialogue name body hname hbody =>
    have hform : '[' :: name ++ "] ".toList ++ body = (Element.dialogue name body).describe := by
      show '[' :: name ++ "] ".toList ++ body = '[' :: name ++ ']' :: ' ' :: body
      simp
    have hwritten := Written.dialogue name body
    rw [hform] at hwritten
    exact ⟨hwritten, hname.isName, hbody.squeeze_eq⟩
  | jump hpath hne => exact ⟨.jump _, hpath.isArgument, hne⟩
  -- the labels of a choice stand elsewhere on its line, and a background may show no path
  | choice => exact absurd hwhole id
  | background => exact absurd hwhole id
  | comment => exact absurd hwhole id

/-- From the line that it is shown on, an element that is shown whole is read again. -/
theorem Element.Shapely.reread {e : Element} (h : e.Shapely) (hwhole : e.ShownWhole)
    (origin : Option Text) :
    (Cursor.ofText e.describe origin).advance.outcome = .ok (some e) ∧
      (Cursor.ofText e.describe origin).advance.cursor.advance.outcome = .ok none := by
  obtain ⟨hwritten, hwritable⟩ := h.written hwhole
  have hdrop : e.describe.drop 0 = [] ++ ['\n'].intercalate [e.describe] := by simp
  obtain ⟨hgives, hends, -⟩ := ahead_written_of_drop (c := .ofText e.describe origin)
    (.cons hwritten .nil) (List.forall_mem_singleton.2 hwritable) (List.isChain_singleton e) rfl
    (Nat.zero_le _) hdrop (by simp) (by simp)
  exact ⟨hgives 0 (by simp), hends⟩

/-! ## Runs -/

theorem Player.outcome_advance_of_step {p : Player} {e : Element}
    (h : p.step.2 = .ok (some e)) : p.cursor.advance.outcome = .ok (some e) := by
  cases p.sort with
  | @stopped o hv =>
    rw [step_of_verdict hv] at h
    obtain rfl : o = .ok (some e) := h
    cases PlayState.verdict?_verdict hv
  | failing hs ho =>
    rw [step_of_failing hs ho] at h
    cases h
  | ending hs ho =>
    rw [step_of_ending hs ho] at h
    cases h
  | plain hs ho hm =>
    rw [step_of_plain hs ho hm] at h
    exact ho.trans h
  | impossible hs ho he =>
    rw [step_of_impossible hs ho he] at h
    cases h
  | possible hs ho he =>
    rw [step_of_possible hs ho he] at h
    exact ho.trans h

theorem Cursor.shapely_of_outcome {c : Cursor} {e : Element}
    (h : c.advance.outcome = .ok (some e)) : e.Shapely := by
  obtain ⟨p, hscan, rfl⟩ := Cursor.exists_scan_of_outcome h
  rw [Cursor.scan_of_unlatched (Cursor.unlatched_of_scan hscan)] at hscan
  exact shapely_of_scan hscan

theorem Cursor.mark_of_next {c : Cursor} {e next : Element}
    (h : c.advance.outcome = .ok (some e)) (hd : e.mark = .dialogue)
    (hnext : c.advance.cursor.advance.outcome = .ok (some next)) : next.mark ≠ .dialogue := by
  obtain ⟨p, hscan, rfl⟩ := Cursor.exists_scan_of_outcome h
  have hl := Cursor.unlatched_of_scan hscan
  rw [Cursor.advance_of_scan hscan] at hnext
  obtain ⟨q, hscan', rfl⟩ := Cursor.exists_scan_of_outcome hnext
  have hthere : Cursor.scan { c with offset := p.stop } = c.text.scan p.stop :=
    Cursor.scan_of_unlatched hl
  exact mark_of_scan_stop ((Cursor.scan_of_unlatched hl).symm.trans hscan) hd
    (hthere.symm.trans hscan')

namespace Engine

theorem shapely_of_outcomes {p : Player} {n : Nat} :
    ∀ e ∈ elementsOf (p.outcomes n), e.Shapely := by
  induction n generalizing p with
  | zero =>
    intro e he
    cases he
  | succ n ih =>
    intro e he
    rw [Player.outcomes] at he
    by_cases hgives : ∃ element, p.step.2 = .ok (some element)
    · obtain ⟨element, ho⟩ := hgives
      rw [ho, elementsOf_cons_element] at he
      rcases List.mem_cons.1 he with rfl | he
      · exact Cursor.shapely_of_outcome (Player.outcome_advance_of_step ho)
      · exact ih e he
    · rw [elementsOf_cons_of_stops fun element ho => hgives ⟨element, ho⟩] at he
      exact ih e he

theorem Outcome.verdict?_of_stops {o : Outcome} (h : o.Stops) : Outcome.verdict? o = some o := by
  cases o with
  | error error => rfl
  | ok found =>
    cases found with
    | none => rfl
    | some element => exact absurd rfl (h element)

theorem elementsOf_of_stopped {p : Player} {o : Outcome} (h : p.state.verdict? = some o) (n : Nat) :
    elementsOf (p.outcomes n) = [] := by
  induction n with
  | zero => rfl
  | succ n ih =>
    have hstops : o.Stops := by
      rcases PlayState.verdict?_eq_some h with ⟨error, -, rfl⟩ | ⟨-, rfl⟩ <;> simp
    rw [Player.outcomes, Player.step_of_verdict h, elementsOf_cons_of_stops hstops]
    exact ih

/-- A step that gives no element is the last to give anything. -/
theorem elementsOf_of_stops {p : Player} (h : p.step.2.Stops) (n : Nat) :
    elementsOf (p.outcomes n) = [] := by
  cases n with
  | zero => rfl
  | succ n =>
    have hverdict := p.verdict?_step.trans (Outcome.verdict?_of_stops h)
    rw [Player.outcomes, elementsOf_cons_of_stops h, elementsOf_of_stopped hverdict]

end Engine

theorem Ending.eq_of_outcome? {ending : Ending} {o : Outcome} (h : ending.outcome? = some o) :
    ending = .done o := by
  cases ending with
  | done o' =>
    obtain rfl : o' = o := Option.some.inj h
    rfl
  | usage => cases h
  | escaped => cases h
  | unfinished => cases h

namespace CommandLine

open Engine (elementsOf next)

/-- The line for an element, with a position. -/
def lineAt (x : Position × Element) : Text := positionText x.1 ++ '\t' :: x.2.describe

theorem oneLine_lineAt {x : Position × Element} (h : x.2.Shapely) : (lineAt x).OneLine := by
  rw [lineAt, Text.oneLine_append, Text.oneLine_cons]
  exact ⟨oneLine_positionText _, by decide, h.oneLine⟩

theorem out_play_of_stops {e : Engine} {threshold n : Nat}
    (h : Engine.Outcome.Stops (next e.forget).2) : (play threshold (n + 1) e).1.out = [] := by
  rw [play, step]
  cases hnext : next e.forget with
  | mk after outcome =>
    rw [hnext] at h
    cases outcome with
    | error error => rfl
    | ok found =>
      cases found with
      | none => rfl
      | some element => exact absurd rfl (h element)

/-- Playing prints a line for each element that the steps of the player give. -/
theorem out_play (threshold n : Nat) {e : Engine} (he : e.Calm) :
    ∃ printed : List (Position × Element),
      (play threshold n e).1.out = printed.map lineAt ∧
        printed.map Prod.snd = elementsOf (e.world.outcomes n) := by
  induction n generalizing e with
  | zero => exact ⟨[], rfl, rfl⟩
  | succ n ih =>
    obtain ⟨hcalm, hworld, houtcome⟩ := Engine.calm_next_forget he
    by_cases hgives : ∃ element, e.world.step.2 = .ok (some element)
    · obtain ⟨element, ho⟩ := hgives
      obtain ⟨printed, hout, helements⟩ := ih hcalm
      refine ⟨((next e.forget).1.world.cursor.position, element) :: printed, ?_, ?_⟩
      · rw [play_of_element (houtcome.trans ho), List.map_cons, ← hout]
        rfl
      · rw [Player.outcomes, ho, Engine.elementsOf_cons_element, List.map_cons, helements, hworld]
    · have hstops : e.world.step.2.Stops := fun element ho => hgives ⟨element, ho⟩
      have hstops' : Engine.Outcome.Stops (next e.forget).2 := by
        rw [houtcome]
        exact hstops
      refine ⟨[], ?_, ?_⟩
      · rw [out_play_of_stops hstops']
        rfl
      · rw [Engine.elementsOf_of_stops hstops]
        rfl

/-- An engine that has just been opened is one that nobody listens to. -/
theorem calm_of_openEngine {fs : FileSystem} {config : Config} {script : Text} {e : Engine}
    (h : openEngine fs config script = .ok e) : e.Calm := by
  cases hread : fs.readText (Path.ofText script) config.encoding with
  | ok text =>
    obtain ⟨opened, hopen, hcalm, -⟩ := openEngine_eq hread
    rw [hopen] at h
    obtain rfl := Except.ok.inj h
    exact hcalm
  | error reason =>
    simp only [openEngine, Engine.ofFile, Cursor.ofFile, hread] at h
    split at h <;> cases h

/-- Nothing is printed for a script that cannot be opened. -/
theorem out_of_unopened {fs : FileSystem} {config : Config} {script : Text} {ending : Ending}
    {o : Outcome} (h : openEngine fs config script = .error ending)
    (ho : ending = .done o ∨ ending = .unfinished o) : o.out = [] := by
  simp only [openEngine] at h
  split at h
  · cases h
    rcases ho with ho | ho <;> cases ho
  · cases h
    rcases ho with ho | ho <;> cases ho
    rfl
  · split at h
    · cases h
      rcases ho with ho | ho <;> cases ho
      rfl
    · cases h

/-- A run prints no more than what is played. -/
theorem out_run {fs : FileSystem} {config : Config} {threshold steps : Nat} {script : Text}
    {o : Outcome} (h : run fs config threshold steps script = .done o ∨
      run fs config threshold steps script = .unfinished o) :
    ∃ printed : List (Position × Element), o.out = printed.map lineAt ∧
      (∀ x ∈ printed, x.2.Shapely) ∧
      ∀ e, openEngine fs config script = .ok e →
        printed.map Prod.snd = elementsOf (e.world.outcomes steps) := by
  cases hopen : openEngine fs config script with
  | error ending =>
    have hrun : run fs config threshold steps script = ending := by rw [run, hopen]
    rw [hrun] at h
    refine ⟨[], out_of_unopened hopen h, by simp, ?_⟩
    intro e he
    cases he
  | ok e =>
    obtain ⟨printed, hout, helements⟩ := out_play threshold steps (calm_of_openEngine hopen)
    refine ⟨printed, ?_, ?_, ?_⟩
    · rw [← hout]
      simp only [run, hopen] at h
      split at h
      · rename_i played hplay
        obtain rfl : { played with err := _ } = o := by simpa using h
        rw [hplay]
      · rename_i played hplay
        obtain rfl : { played with err := _ } = o := by simpa using h
        rw [hplay]
    · intro x hx
      apply Engine.shapely_of_outcomes (p := e.world) (n := steps)
      rw [← helements]
      exact List.mem_map_of_mem hx
    · intro e' he'
      obtain rfl := Except.ok.inj he'
      exact helements

end CommandLine

open CommandLine (run lineAt openEngine)
open Engine (elementsOf)

/-- **The shape of elements.** Each element that a cursor gives, wherever it stands and on whatever
text, has its shape. It is shown without a line feed, no dialogue comes right behind another one,
and a dialogue or a plain jump is read back, and then nothing, from a script that is no more than
the line that it is shown on. A run prints a single line for each of the elements that the steps of
its engine give, and these have their shape too. -/
theorem elements_shapely :
    (∀ (c : Cursor) (e : Element), c.advance.outcome = .ok (some e) →
      e.Shapely ∧ '\n' ∉ e.describe ∧
      (e.mark = .dialogue → ∀ next, c.advance.cursor.advance.outcome = .ok (some next) →
        next.mark ≠ .dialogue) ∧
      (e.ShownWhole → ∀ origin,
        let shown := Cursor.ofText e.describe origin
        shown.advance.outcome = .ok (some e) ∧
          shown.advance.cursor.advance.outcome = .ok none)) ∧
    ∀ (fs : FileSystem) (config : Config) (threshold steps : Nat) (script : Text) (o : Outcome),
      run fs config threshold steps script = .done o ∨
        run fs config threshold steps script = .unfinished o →
      ∃ printed : List (Position × Element), o.out = printed.map lineAt ∧
        (∀ x ∈ printed, x.2.Shapely ∧ '\n' ∉ lineAt x) ∧
        ∀ engine, openEngine fs config script = .ok engine →
          printed.map Prod.snd = elementsOf (engine.world.outcomes steps) := by
  constructor
  · intro c e he
    have hshape := Cursor.shapely_of_outcome he
    exact ⟨hshape, hshape.oneLine.not_feed, fun hd next hnext => Cursor.mark_of_next he hd hnext,
      fun hwhole => hshape.reread hwhole⟩
  · intro fs config threshold steps script o h
    obtain ⟨printed, hout, hshapes, helements⟩ := CommandLine.out_run h
    refine ⟨printed, hout, fun x hx => ?_, helements⟩
    have hshape := hshapes x hx
    exact ⟨hshape, (CommandLine.oneLine_lineAt hshape).not_feed⟩

/-- A name and an argument with blanks around them, and words on two lines. -/
def porch : Text := "[ Ada ]  good\n\tday\n@loadbg( a.png , b )".toList

def porchFiles : FileSystem :=
  FileSystem.nameless.install (Path.ofText "s.vn".toList) (.file (Utf8.encode porch))

theorem elements_shapely_porch :
    let greeting := Element.dialogue "Ada".toList "good day".toList
    let c := Cursor.ofText porch none
    let o : Outcome :=
      { status := 0, out := ["3:1\t[Ada] good day".toList, "3:21\t@loadbg(a.png)".toList] }
    (c.advance.outcome = .ok (some greeting) ∧
      c.advance.cursor.advance.outcome =
        .ok (some (.directive (.loadBackground "a.png".toList)))) ∧
    greeting.Shapely ∧ (Element.directive (.loadBackground "a.png".toList)).mark ≠ .dialogue ∧
    (Cursor.ofText "[Ada] good day".toList none).advance.outcome = .ok (some greeting) ∧
    (run porchFiles {} Level.warning.rank 3 "s.vn".toList).outcome? = some o ∧
    ∃ printed : List (Position × Element), o.out = printed.map lineAt ∧
      ∀ x ∈ printed, x.2.Shapely ∧ '\n' ∉ lineAt x := by
  intro greeting c o
  have hfirst : c.advance.outcome = .ok (some greeting) := by decide +kernel
  have hsecond : c.advance.cursor.advance.outcome =
      .ok (some (.directive (.loadBackground "a.png".toList))) := by decide +kernel
  have hdone : (run porchFiles {} Level.warning.rank 3 "s.vn".toList).outcome? = some o := by
    decide +kernel
  obtain ⟨hcursor, hrun⟩ := elements_shapely
  obtain ⟨hshape, -, hnext, hshown⟩ := hcursor c greeting hfirst
  obtain ⟨printed, hout, hprinted, -⟩ :=
    hrun porchFiles {} Level.warning.rank 3 "s.vn".toList o (.inl (Ending.eq_of_outcome? hdone))
  exact ⟨⟨hfirst, hsecond⟩, hshape, hnext rfl _ hsecond, (hshown trivial none).1, hdone, printed,
    hout, hprinted⟩

end Playscript
