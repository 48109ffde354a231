import Playscript.Proofs.Grammar
import Playscript.Proofs.Latch

/-!
# Where errors point

The errors of a script point at the line that their element starts on. A reader stops at the first
line break at the latest, so it never leaves that line; and what it has come past holds no carriage
return, so the place where it stopped is never cut off with those at the end of the line.

* `Text.Stretch`: what stands on one line from an offset on.
* `Stretch.positionOf`, `Stretch.lineAt`: places along a stretch have one line and are columns
  apart.
* `ScriptError.PointsFrom`: what is known of the place of an error.
* `pointsFrom_of_misspelled`, `pointsFrom_of_scan`: the errors of readers and scans.
* `errors_point_at_line`: the errors that a cursor raises.
-/

namespace Playscript

/-! ## Places on one line -/

namespace Text

/-- Text that stands at an offset, and no line break in it. -/
structure Stretch (source : Text) (start : Nat) (come : Text) : Prop where
  ne_nil : come ≠ []
  stands : ∃ rest, source.drop start = come ++ rest
  unbroken : ∀ c ∈ come, isLineBreak c = false

theorem lastLine_append {come : Text} (h : '\n' ∉ come) (before : Text) :
    lastLine (before ++ come) = lastLine before ++ come := by
  have hkept : ∀ c ∈ come.reverse, decide (c ≠ '\n') = true := by
    intro c hc
    rw [List.mem_reverse] at hc
    exact decide_eq_true fun hfeed => h (hfeed ▸ hc)
  rw [lastLine, List.reverse_append, List.takeWhile_append_of_pos hkept, List.reverse_append,
    List.reverse_reverse, lastLine]

theorem dropTrailing_append_of_not {p : Char → Bool} {t : Text}
    (h : ∀ c, t.getLast? = some c → p c = false) (hne : t ≠ []) (tail : Text) :
    dropTrailing p (t ++ tail) = t ++ dropTrailing p tail := by
  have hstop : t.reverse.dropWhile p = t.reverse := by
    cases hr : t.reverse with
    | nil => exact absurd (List.reverse_eq_nil_iff.1 hr) hne
    | cons c r =>
      have hlast : t.getLast? = some c := by rw [← List.head?_reverse, hr, List.head?_cons]
      rw [List.dropWhile_cons_of_neg (by simp [h c hlast])]
  rw [dropTrailing, List.reverse_append, List.dropWhile_append]
  split
  · rename_i hnil
    have hnone : tail.reverse.dropWhile p = [] := by simpa using hnil
    rw [hstop, List.reverse_reverse, dropTrailing, hnone, List.reverse_nil, List.append_nil]
  · rw [List.reverse_append, List.reverse_reverse, dropTrailing]

namespace Stretch

variable {source come : Text} {start : Nat}

theorem not_feed (h : source.Stretch start come) : '\n' ∉ come := by
  intro hmem
  have hbreak := h.unbroken _ hmem
  exact absurd hbreak (by decide)

/-- The text falls into what is before the stretch, the stretch, and the rest. -/
theorem split (h : source.Stretch start come) :
    ∃ before rest, source = before ++ (come ++ rest) ∧ before.length = start := by
  obtain ⟨rest, hrest⟩ := h.stands
  have hlt : start ≤ source.length := by
    by_contra hge
    rw [List.drop_eq_nil_of_le (by omega)] at hrest
    exact h.ne_nil (List.append_eq_nil_iff.1 hrest.symm).1
  refine ⟨source.take start, rest, ?_, by rw [List.length_take, Nat.min_eq_left hlt]⟩
  rw [← hrest, List.take_append_drop]

theorem length_le (h : source.Stretch start come) : start + come.length ≤ source.length := by
  obtain ⟨before, rest, rfl, rfl⟩ := h.split
  rw [List.length_append, List.length_append]
  omega

/-- The end of a stretch is on the line of its start, as many columns on as it is long. -/
theorem positionOf (h : source.Stretch start come) :
    source.positionOf ↑(start + come.length) =
      ⟨(source.positionOf start).line, (source.positionOf start).column + come.length⟩ := by
  have hfeed := h.not_feed
  obtain ⟨before, rest, rfl, rfl⟩ := h.split
  rw [positionOf_append, ← List.append_assoc, ← List.length_append, positionOf_append]
  simp only [endPosition, lastLine_append hfeed, List.count_append, List.count_eq_zero.2 hfeed,
    List.length_append]
  congr 1
  omega

/-- From both its ends one sees the same line. -/
theorem lineAt (h : source.Stretch start come) :
    source.lineAt ↑(start + come.length) = source.lineAt start := by
  have hfeed := h.not_feed
  have hkept : ∀ c ∈ come, decide (c ≠ '\n') = true :=
    fun c hc => decide_eq_true fun heq => hfeed (heq ▸ hc)
  obtain ⟨before, rest, rfl, rfl⟩ := h.split
  rw [lineAt_append, ← List.append_assoc, ← List.length_append, lineAt_append,
    lastLine_append hfeed, List.takeWhile_append_of_pos hkept, List.append_assoc]

/-- The line that one sees holds all of the stretch, and the stretch begins at its column there. -/
theorem shown (h : source.Stretch start come) :
    ∃ front tail, source.lineAt start = front ++ (come ++ tail) ∧
      (source.positionOf start).column = front.length + 1 := by
  have hfeed := h.not_feed
  have hkept : ∀ c ∈ come, decide (c ≠ '\n') = true :=
    fun c hc => decide_eq_true fun heq => hfeed (heq ▸ hc)
  have hunbroken := h.unbroken
  have hne := h.ne_nil
  obtain ⟨before, rest, rfl, rfl⟩ := h.split
  -- the carriage returns that the line is shown without all come after the stretch
  have hlast : ∀ c, (lastLine before ++ come).getLast? = some c → (c == '\r') = false := by
    intro c hc
    rw [List.getLast?_append_of_ne_nil _ hne] at hc
    have hbreak := hunbroken c (List.mem_of_getLast? hc)
    rw [beq_eq_false_iff_ne]
    rintro rfl
    exact absurd hbreak (by decide)
  refine ⟨lastLine before, dropTrailing (· == '\r') (rest.takeWhile (· ≠ '\n')), ?_, ?_⟩
  · rw [lineAt_append, List.takeWhile_append_of_pos hkept, ← List.append_assoc,
      dropTrailing_append_of_not hlast (by simp [hne]), List.append_assoc]
  · rw [positionOf_append, endPosition]

end Stretch

/-- A mark is a stretch of one character. -/
theorem stretch_mark {source : Text} {start : Nat} (mark : Mark)
    (h : source[start]? = some mark.char) : source.Stretch start [mark.char] where
  ne_nil := by simp
  stands := ⟨source.drop (start + 1), drop_of_getElem? h⟩
  unbroken c hc := by
    obtain rfl := List.mem_singleton.1 hc
    cases mark <;> decide

end Text

/-! ## Errors that point at a line -/

/-- The refusals of the directives. -/
def Fault.isRefusal : Fault → Bool
  | .unknownDirective _ | .missingArgument _ _ | .invalidArity _ => true
  | _ => false

/-- The place of an error, told from where its element starts. -/
structure ScriptError.PointsFrom (e : ScriptError) (source : Text) (start : Nat) : Prop where
  line : e.line = some ↑(source.positionOf start).line
  context : e.context = some (source.lineAt start)
  /-- The column is on the line that is shown, or right behind it. -/
  column : ∃ column : Nat, e.column = some ↑column ∧ 1 ≤ column ∧
    column ≤ (source.lineAt start).length + 1
  shown : source.lineAt start <:+ e.render
  kind : e.fault.isRefusal = true ∨ ∃ stop expected note, e.fault = .malformed stop expected note
  /-- A directive that is refused is shown from its at sign on. -/
  refusal : e.fault.isRefusal = true →
    e.column = some ↑(source.positionOf start).column ∧
      (source.lineAt start)[(source.positionOf start).column - 1]? = some '@'
  /-- An element that breaks off is shown where it does so. -/
  malformed : ∀ stop expected note, e.fault = .malformed stop expected note →
    ↑start < stop ∧ stop ≤ source.length ∧
      e.line = some ↑(source.positionOf stop).line ∧
      e.column = some ↑(source.positionOf stop).column ∧
      (source.positionOf start).column < (source.positionOf stop).column

/-- The context of an error is what its text ends with. -/
theorem ScriptError.suffix_render {e : ScriptError} {context : Text}
    (h : e.context = some context) : context <:+ e.render := by
  by_cases hnil : context = []
  · rw [hnil]
    exact List.nil_suffix
  · have htext : e.contextText = "\n  >> ".toList ++ context := by
      simp only [contextText, h, if_neg hnil]
    refine ⟨e.message ++ e.placeText ++ "\n  >> ".toList, ?_⟩
    rw [render, htext, List.append_assoc, List.append_assoc]

section
variable {source : Text} {start : Nat}

/-- A reader that stopped at the end of a stretch from the start of its element. -/
theorem Missing.pointsFrom_errorAt {come : Text} (h : source.Stretch start come) (what : Missing) :
    (what.errorAt source (start + come.length)).PointsFrom source start := by
  have hposition := h.positionOf
  have hcontext : (what.errorAt source (start + come.length)).context
      = some (source.lineAt start) := congrArg some h.lineAt
  have hline : (what.errorAt source (start + come.length)).line
      = some ↑(source.positionOf start).line := by
    rw [Missing.errorAt, ScriptError.locate, hposition]
  have hcolumn : (what.errorAt source (start + come.length)).column
      = some ↑((source.positionOf start).column + come.length) := by
    rw [Missing.errorAt, ScriptError.locate, hposition]
  have hpositive : 0 < come.length := List.length_pos_iff.2 h.ne_nil
  obtain ⟨front, tail, hshown, hfront⟩ := h.shown
  constructor
  case line => exact hline
  case context => exact hcontext
  case column =>
    refine ⟨_, hcolumn, by omega, ?_⟩
    rw [hshown, hfront, List.length_append, List.length_append]
    omega
  case shown => exact ScriptError.suffix_render hcontext
  case kind => exact .inr ⟨_, _, _, rfl⟩
  case refusal => exact fun hrefusal => absurd hrefusal Bool.false_ne_true
  case malformed =>
    rintro stop expected note hfault
    obtain ⟨rfl, -, -⟩ := Fault.malformed.inj hfault
    have hlength := h.length_le
    rw [hposition]
    exact ⟨by omega, by omega, hline, hcolumn, Nat.lt_add_of_pos_right hpositive⟩

/-- A directive that is refused is found at its at sign. -/
theorem pointsFrom_refused (h : source[start]? = some '@') {fault : Fault}
    (hf : fault.isRefusal = true) :
    (ScriptError.locate { fault } source start).PointsFrom source start := by
  obtain ⟨front, tail, hshown, hfront⟩ := (Text.stretch_mark .directive h).shown
  constructor
  case line => rfl
  case context => rfl
  case column =>
    refine ⟨_, rfl, by omega, ?_⟩
    rw [hshown, hfront, List.length_append]
    omega
  case shown => exact ScriptError.suffix_render rfl
  case kind => exact .inl hf
  case refusal =>
    intro _
    refine ⟨rfl, ?_⟩
    rw [hshown, hfront, Nat.add_sub_cancel, List.getElem?_append_right (Nat.le_refl _),
      Nat.sub_self]
    rfl
  case malformed =>
    rintro stop expected note rfl
    exact absurd hf Bool.false_ne_true

/-! ## The errors of readers -/

theorem unbroken_of_word {name : Text} (h : name.IsWord) :
    ∀ c ∈ name, Text.isLineBreak c = false := by
  intro c hc
  have hletter := h.2 c hc
  by_contra hbreak
  rw [Bool.not_eq_false, Text.isLineBreak, Bool.or_eq_true] at hbreak
  rcases hbreak with hfeed | hreturn
  · rw [eq_of_beq hfeed] at hletter
    exact absurd hletter (by decide)
  · rw [eq_of_beq hreturn] at hletter
    exact absurd hletter (by decide)

/-- Whatever is wrong with a directive, it is found on the line of its at sign. -/
theorem pointsFrom_of_misspelled {after : Text} {e : ScriptError}
    (hhere : source.drop start = '@' :: after) (h : Directive.Misspelled source start after e) :
    e.PointsFrom source start := by
  have hat : source[start]? = some '@' := by rw [← List.head?_drop, hhere, List.head?_cons]
  have hsign : Text.isLineBreak '@' = false := by decide
  cases h with
  | unnamed =>
    exact Missing.pointsFrom_errorAt (Text.stretch_mark .directive hat) .directiveName
  | @unopened name tail hname =>
    have hstretch : source.Stretch start ('@' :: name) :=
      ⟨by simp, ⟨tail, hhere⟩, List.forall_mem_cons.2 ⟨hsign, unbroken_of_word hname⟩⟩
    have hpoints := Missing.pointsFrom_errorAt hstretch (.argumentsStart name)
    rwa [List.length_cons, show start + (name.length + 1) = start + 1 + name.length by omega]
      at hpoints
  | @unclosed name inner line hname _ hline =>
    obtain ⟨tail, rfl, -⟩ := hline.split
    have hunbroken : ∀ c ∈ '@' :: (name ++ '(' :: line), Text.isLineBreak c = false := by
      intro c hc
      rw [List.mem_cons, List.mem_append, List.mem_cons] at hc
      rcases hc with rfl | hc | rfl | hc
      · exact hsign
      · exact unbroken_of_word hname c hc
      · decide
      · exact hline.unbroken c hc
    have hstretch : source.Stretch start ('@' :: (name ++ '(' :: line)) :=
      ⟨by simp, ⟨tail, by simp [hhere]⟩, hunbroken⟩
    have hpoints := Missing.pointsFrom_errorAt hstretch .argumentsEnd
    rwa [List.length_cons, List.length_append, List.length_cons,
      show start + (name.length + (line.length + 1) + 1) =
        start + 1 + name.length + 1 + line.length by omega] at hpoints
  | unknown => exact pointsFrom_refused hat rfl
  | arity => exact pointsFrom_refused hat rfl
  | argument => exact pointsFrom_refused hat rfl

/-- An error at an at sign tells what is wrong there. -/
theorem misspelled_of_parse {offset : Nat} (h : source[offset]? = some '@') {e : ScriptError}
    (he : Mark.directive.parseAt source offset = .error e) :
    Directive.Misspelled source offset (source.drop (offset + 1)) e := by
  have hhere := Text.drop_of_getElem? h
  have hle : offset ≤ source.length := Nat.le_of_lt (List.getElem?_eq_some_iff.1 h).1
  rcases spelled_or_misspelled source offset (source.drop (offset + 1)) with
    ⟨d, w, rest, hd, hw⟩ | ⟨e', he'⟩
  · obtain ⟨_, hgiven⟩ := hd.parse hle (hhere.trans hw)
    rw [he] at hgiven
    cases hgiven
  · rw [he'.parse hle hhere] at he
    obtain rfl := Except.error.inj he
    exact he'

/-- An error at a bracket is found at the end of its line. -/
theorem pointsFrom_of_unclosed (h : source[start]? = some '[') {e : ScriptError}
    (he : Mark.dialogue.parseAt source start = .error e) : e.PointsFrom source start := by
  have hopen : ¬Text.ClosesWith (source.drop (start + 1)) ']' := by
    intro hcloses
    obtain ⟨name, said, rest, hblock⟩ := exists_block_at h hcloses
    obtain ⟨stop, -, -, -, hgiven⟩ := hblock.parse
    rw [he] at hgiven
    cases hgiven
  obtain ⟨line, hline, herror⟩ := parseAt_unclosed h hopen
  rw [he] at herror
  obtain rfl := Except.error.inj herror
  obtain ⟨tail, hsplit, -⟩ := hline.split
  have hstretch : source.Stretch start ('[' :: line) := by
    refine ⟨by simp, ⟨tail, ?_⟩, List.forall_mem_cons.2 ⟨by decide, hline.unbroken⟩⟩
    rw [Text.drop_of_getElem? h, hsplit, List.cons_append]
  have hpoints := Missing.pointsFrom_errorAt hstretch .speakerEnd
  rwa [List.length_cons, show start + (line.length + 1) = start + 1 + line.length by omega]
    at hpoints

end

/-- The error of a scan points at the line of the character that the scan stopped at. -/
theorem pointsFrom_of_scan {source : Text} {offset : Nat} {e : ScriptError}
    (h : source.scan offset = .error e) : e.PointsFrom source (source.nextStart offset) := by
  obtain ⟨mark, d, hmark, hread, rfl⟩ := Text.scan_eq_error_iff.1 h
  have hle : source.nextStart offset ≤ source.length :=
    Nat.le_of_lt (List.getElem?_eq_some_iff.1 hmark).1
  have hparse : mark.parseAt source (source.nextStart offset) =
      .error (d.toError source (source.nextStart offset)) := by
    simp only [Mark.parseAt, hread]
  cases mark with
  | dialogue => exact pointsFrom_of_unclosed hmark hparse
  | directive =>
    exact pointsFrom_of_misspelled (Text.drop_of_getElem? hmark) (misspelled_of_parse hmark hparse)
  | comment => cases hread

open Cursor (Operation)

/-- **Errors point at the line of their element.** A cursor is put anywhere in a text, and operated
in whatever way. If it raises an error then, for a peek or for an advance, that error points at the
line of the first character behind the blanks, is shown with that line, and with a column on it. -/
theorem errors_point_at_line (text : Text) (origin : Option Text) (start : Nat)
    (ops : List Operation) {e : ScriptError} :
    let c := ({ text, origin, offset := start } : Cursor).after ops
    c.peek = .error e ∨ c.advance.outcome = .error e →
      e.PointsFrom text (text.nextStart c.offset) := by
  intro c hraised
  have hnew : Cursor.Coherent text { text, origin, offset := start } := by
    constructor
    · rfl
    · intro e hl
      cases hl
  have hc : Cursor.Coherent text c := hnew.after ops
  rw [Cursor.outcome_advance, or_self, Cursor.peek_eq_error_iff, hc.scan] at hraised
  exact pointsFrom_of_scan hraised

/-- A call that a lone carriage return breaks off, on a line that ends with two of them. -/
def hiccup : Text := "# note\n \r @jump(a\rb.vn)\r\r\n".toList

theorem errors_point_at_line_hiccup :
    let c := ({ text := hiccup, offset := 0 } : Cursor).after
      [.request .advance, .request .advance, .request .peek]
    let e := Missing.argumentsEnd.errorAt hiccup 17
    (c.peek = .error e ∨ c.advance.outcome = .error e) ∧
      e.PointsFrom hiccup (hiccup.nextStart c.offset) ∧ hiccup.nextStart c.offset = 10 ∧
      hiccup.positionOf 10 = ⟨2, 4⟩ ∧ hiccup.positionOf 17 = ⟨2, 11⟩ ∧
      hiccup.lineAt 10 = " \r @jump(a\rb.vn)".toList := by
  intro c e
  have hraised : c.peek = .error e ∨ c.advance.outcome = .error e := .inl (by decide +kernel)
  have hpoints := errors_point_at_line hiccup none 0
    [.request .advance, .request .advance, .request .peek] hraised
  exact ⟨hraised, hpoints, by decide +kernel, by decide +kernel, by decide +kernel,
    by decide +kernel⟩

end Playscript
