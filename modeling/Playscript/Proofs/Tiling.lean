import Playscript.Proofs.Stream

/-!
# Tiling

The elements that a cursor gives lie side by side in its text: only blanks stand between them, each
starts with its mark, and the cursor stops just past each. So there are no more elements than
characters, and what is left at the end says why there is no further one.

* `length_le_of_tiles`: spans that tile a text take up a character each.
* `tiles_spans`: the elements of a stream tile their text.
* `advances_tile`: repeated advances tile the text of the cursor.
-/

namespace Playscript

/-- An element and its place in a text. -/
structure Span where
  element : Element
  start : Nat
  stop : Nat

/-- Spans that follow one another in a text from an offset on. Nothing but blanks stands before
each, and it opens with the mark of its element. -/
def Tiles (text : Text) : Nat → List Span → Prop
  | _, [] => True
  | offset, s :: rest =>
    offset ≤ s.start ∧ (∀ c ∈ text.extract offset s.start, Text.isBlank c = true) ∧
      text[s.start]? = some s.element.mark.char ∧ s.start < s.stop ∧ s.stop ≤ text.length ∧
      Tiles text s.stop rest

/-- Where the last of the spans from an offset on stops. -/
def lastStop : Nat → List Span → Nat
  | offset, [] => offset
  | _, s :: rest => lastStop s.stop rest

namespace Text

/-- From the offset on there are blanks, and then the end or a character that is no mark. -/
def ClosesAt (text : Text) (offset : Nat) : Prop :=
  ∃ gap rest, text.drop offset = gap ++ rest ∧ (∀ c ∈ gap, isBlank c = true) ∧
    ∀ c, rest.head? = some c → isBlank c = false ∧ ∀ mark : Mark, c ≠ mark.char

/-- From the offset on there are blanks, and then a mark. -/
def OpensAt (text : Text) (offset : Nat) : Prop :=
  ∃ gap mark rest, text.drop offset = gap ++ Mark.char mark :: rest ∧ ∀ c ∈ gap, isBlank c = true

variable {source : Text} {offset : Nat}

theorem closesAt_of_scan (h : source.scan offset = .ok none) : source.ClosesAt offset := by
  refine ⟨_, _, (takeWhile_append_drop_nextStart source offset).symm,
    fun c hc => List.mem_takeWhile_imp hc, ?_⟩
  intro c hc
  rw [List.head?_drop] at hc
  refine ⟨not_blank_of_getElem?_nextStart hc, ?_⟩
  rintro mark rfl
  exact scan_eq_none_iff.1 h mark hc

theorem opensAt_of_scan {e : ScriptError} (h : source.scan offset = .error e) :
    source.OpensAt offset := by
  obtain ⟨mark, -, hm, -, -⟩ := scan_eq_error_iff.1 h
  refine ⟨(source.drop offset).takeWhile isBlank, mark, source.drop (source.nextStart offset + 1),
    ?_, fun c hc => List.mem_takeWhile_imp hc⟩
  rw [← drop_of_getElem? hm, takeWhile_append_drop_nextStart]

/-! ## The spans of a stream -/

/-- The spans of elements that are read one after the other from an offset on. -/
def spans (source : Text) : Nat → List Parsed → List Span
  | _, [] => []
  | offset, p :: ps => ⟨p.element, source.nextStart offset, p.stop⟩ :: spans source p.stop ps

theorem length_spans (source : Text) (offset : Nat) (ps : List Parsed) :
    (source.spans offset ps).length = ps.length := by
  induction ps generalizing offset with
  | nil => rfl
  | cons p ps ih => simp [spans, ih]

theorem getElem_spans (source : Text) (offset : Nat) (ps : List Parsed) {n : Nat}
    (h : n < (source.spans offset ps).length) (h' : n < ps.length) :
    (source.spans offset ps)[n].element = ps[n].element ∧
      (source.spans offset ps)[n].stop = ps[n].stop := by
  induction ps generalizing offset n with
  | nil => exact absurd h' (by simp)
  | cons p ps ih =>
    cases n with
    | zero => exact ⟨rfl, rfl⟩
    | succ n => exact ih p.stop (by simpa [spans] using h) (by simpa using h')

theorem tiles_spans {ps : List Parsed} (h : (source.streamFrom offset).elements = ps) :
    Tiles source offset (source.spans offset ps) := by
  induction ps generalizing offset with
  | nil => trivial
  | cons p ps ih =>
    obtain ⟨hs, hrest, -⟩ := scan_of_elements_cons h
    obtain ⟨hmark, hlt, hle⟩ := getElem?_nextStart_of_scan hs
    exact ⟨le_nextStart .., fun c hc => blank_of_mem_extract hc, hmark, hlt, hle, ih hrest⟩

/-- Where the last element of a stream stops, a scan gives what ends the stream. -/
theorem scan_lastStop {ps : List Parsed} (h : (source.streamFrom offset).elements = ps) :
    source.scan (lastStop offset (source.spans offset ps)) = (source.streamFrom offset).ending := by
  induction ps generalizing offset with
  | nil => exact scan_of_elements_nil h
  | cons p ps ih =>
    obtain ⟨-, hrest, herr⟩ := scan_of_elements_cons h
    rw [Stream.ending, ← herr]
    exact ih hrest

end Text

theorem length_le_of_tiles {text : Text} {spans : List Span} {offset : Nat}
    (h : Tiles text offset spans) (ho : offset ≤ text.length) :
    offset + spans.length ≤ text.length := by
  induction spans generalizing offset with
  | nil => simpa using ho
  | cons s rest ih =>
    obtain ⟨hstart, -, -, hlt, hle, hrest⟩ := h
    have := ih hrest hle
    simp only [List.length_cons]
    omega

/-- Repeated advances give elements that tile the text, at most one for each character, and then
nothing where the text closes, or an error at a mark. -/
theorem advances_tile (text : Text) (origin : Option Text) :
    ∃ spans : List Span, spans.length ≤ text.length ∧ Tiles text 0 spans ∧
      (∀ (n : Nat) (h : n < spans.length),
        ((Cursor.ofText text origin).ahead n).advance.outcome = .ok (some spans[n].element) ∧
          ((Cursor.ofText text origin).ahead (n + 1)).offset = spans[n].stop) ∧
      (((Cursor.ofText text origin).ahead spans.length).advance.outcome = .ok none ∧
          text.ClosesAt (lastStop 0 spans) ∨
        ∃ e, ((Cursor.ofText text origin).ahead spans.length).advance.outcome = .error e ∧
          text.OpensAt (lastStop 0 spans)) := by
  have htiles : Tiles text 0 (text.spans 0 (text.streamFrom 0).elements) := Text.tiles_spans rfl
  have hlen := Text.length_spans text 0 (text.streamFrom 0).elements
  refine ⟨text.spans 0 (text.streamFrom 0).elements, ?_, htiles, ?_, ?_⟩
  · simpa using length_le_of_tiles htiles (Nat.zero_le _)
  · intro n h
    have h' : n < (text.streamFrom 0).elements.length := by rwa [hlen] at h
    obtain ⟨helement, hstop⟩ := Text.getElem_spans text 0 _ h h'
    rw [helement, hstop]
    exact Cursor.advance_ahead_of_lt (c := Cursor.ofText text origin) rfl h'
  · have hlast : ((Cursor.ofText text origin).ahead
        (text.streamFrom 0).elements.length).advance.outcome = (text.streamFrom 0).ending :=
      Cursor.advance_ahead_length (c := Cursor.ofText text origin) rfl
    have hscan : text.scan (lastStop 0 (text.spans 0 (text.streamFrom 0).elements))
        = (text.streamFrom 0).ending := Text.scan_lastStop rfl
    rw [hlen]
    cases herr : (text.streamFrom 0).error with
    | none =>
      simp only [Stream.ending, herr] at hlast hscan
      exact .inl ⟨hlast, Text.closesAt_of_scan hscan⟩
    | some e =>
      simp only [Stream.ending, herr] at hlast hscan
      exact .inr ⟨e, hlast, Text.opensAt_of_scan hscan⟩

end Playscript
