import Playscript.Proofs.Scanning

/-!
# Streams of elements

All the elements of a text from an offset on, in order, and the error they end with, if any. A
cursor that is advanced again and again gives exactly this stream.

* `streamFrom_of_some`, `streamFrom_of_none`, `streamFrom_of_error`: a stream by its first scan.
* `advance_ahead_of_lt`: the advances of a cursor give the elements of its stream in order.
* `advance_ahead_length`: the advance after them gives the error, or nothing.
* `scan_ahead_iff`: no advance ever finds anything but these elements.
-/

namespace Playscript

structure Stream where
  elements : List Parsed := []
  error : Option ScriptError := none
  deriving DecidableEq

/-- What comes after the elements: the error they end with, or nothing. -/
def Stream.ending {α : Type} (s : Stream) : Except ScriptError (Option α) :=
  match s.error with
  | none => .ok none
  | some e => .error e

/-- The elements of a text from an offset on. Each starts where the one before it stopped. -/
def Text.streamFrom (source : Text) (offset : Nat) : Stream :=
  match _ : source.scan offset with
  | .error e => { error := some e }
  | .ok none => {}
  | .ok (some p) =>
    let rest := source.streamFrom p.stop
    { elements := p :: rest.elements, error := rest.error }
termination_by source.length - offset
decreasing_by
  have := Text.lt_stop_of_scan ‹_›
  omega

namespace Text

variable {source : Text} {offset : Nat}

theorem streamFrom_of_error {e : ScriptError} (h : source.scan offset = .error e) :
    source.streamFrom offset = { error := some e } := by
  rw [streamFrom]
  split <;> simp_all

theorem streamFrom_of_none (h : source.scan offset = .ok none) :
    source.streamFrom offset = {} := by
  rw [streamFrom]
  split <;> simp_all

theorem streamFrom_of_some {p : Parsed} (h : source.scan offset = .ok (some p)) :
    source.streamFrom offset =
      { elements := p :: (source.streamFrom p.stop).elements
        error := (source.streamFrom p.stop).error } := by
  rw [streamFrom]
  split <;> simp_all

/-- A stream without elements ends at its first scan. -/
theorem scan_of_elements_nil (h : (source.streamFrom offset).elements = []) :
    source.scan offset = (source.streamFrom offset).ending := by
  cases hs : source.scan offset with
  | error e => simp [streamFrom_of_error hs, Stream.ending]
  | ok found =>
    cases found with
    | none => simp [streamFrom_of_none hs, Stream.ending]
    | some p => simp [streamFrom_of_some hs] at h

/-- The first element of a stream is what the first scan finds. -/
theorem scan_of_elements_cons {p : Parsed} {ps : List Parsed}
    (h : (source.streamFrom offset).elements = p :: ps) :
    source.scan offset = .ok (some p) ∧ (source.streamFrom p.stop).elements = ps ∧
      (source.streamFrom p.stop).error = (source.streamFrom offset).error := by
  cases hs : source.scan offset with
  | error e => simp [streamFrom_of_error hs] at h
  | ok found =>
    cases found with
    | none => simp [streamFrom_of_none hs] at h
    | some q =>
      rw [streamFrom_of_some hs] at h ⊢
      obtain ⟨rfl, hps⟩ := List.cons.inj h
      exact ⟨rfl, hps, rfl⟩

end Text

/-! ## Cursors along a stream -/

namespace Cursor

/-- A cursor at the start of a text. -/
abbrev ofText (text : Text) (origin : Option Text) : Cursor := { text, origin }

/-- The cursor after a number of advances, whatever they give. -/
def ahead (c : Cursor) : Nat → Cursor
  | 0 => c
  | n + 1 => c.advance.cursor.ahead n

theorem scan_of_unlatched {c : Cursor} (h : c.latched = none) :
    c.scan = c.text.scan c.offset := by
  simp [scan, h]

theorem unlatched_of_scan {c : Cursor} {found : Option Parsed} (h : c.scan = .ok found) :
    c.latched = none := by
  cases hl : c.latched with
  | none => rfl
  | some e => simp [scan, hl] at h

theorem exists_scan_of_outcome {c : Cursor} {e : Element}
    (h : c.advance.outcome = .ok (some e)) : ∃ p, c.scan = .ok (some p) ∧ p.element = e := by
  unfold advance at h
  cases hs : c.scan with
  | error err => simp [hs] at h
  | ok found =>
    cases found with
    | none => simp [hs] at h
    | some p => exact ⟨p, rfl, by simpa [hs] using h⟩

/-- What is left of the stream of a cursor. -/
def stream (c : Cursor) : Stream := c.text.streamFrom c.offset

theorem ahead_succ (c : Cursor) (n : Nat) : c.ahead (n + 1) = (c.ahead n).advance.cursor := by
  induction n generalizing c with
  | zero => rfl
  | succ n ih => exact ih c.advance.cursor

theorem ahead_add (c : Cursor) (m n : Nat) : c.ahead (m + n) = (c.ahead m).ahead n := by
  induction n with
  | zero => rfl
  | succ n ih => rw [← Nat.add_assoc, ahead_succ, ahead_succ, ih]

/-- A cursor that comes to an error stays where it is. -/
theorem offset_ahead_of_error {c : Cursor} {e : ScriptError} (h : c.scan = .error e)
    (n : Nat) : (c.ahead n).offset = c.offset := by
  induction n generalizing c with
  | zero => rfl
  | succ n ih =>
    have hstep : c.advance.cursor = { c with latched := some e } := by simp only [advance, h]
    rw [ahead, hstep]
    exact ih rfl

theorem advance_of_stream_cons {c : Cursor} (hl : c.latched = none) {p : Parsed}
    {ps : List Parsed} (h : c.stream.elements = p :: ps) :
    c.advance = ⟨{ c with offset := p.stop }, .ok (some p.element), p.advanceRecords⟩ := by
  apply advance_of_scan
  rw [scan_of_unlatched hl]
  exact (Text.scan_of_elements_cons h).1

theorem outcome_of_stream_nil {c : Cursor} (hl : c.latched = none) (h : c.stream.elements = []) :
    c.advance.outcome = c.stream.ending := by
  have hs : c.scan = c.stream.ending := (scan_of_unlatched hl).trans (Text.scan_of_elements_nil h)
  rw [outcome_advance, peek, hs, Stream.ending, Stream.ending]
  cases c.stream.error <;> rfl

/-- As long as the elements of its stream last, advances take a cursor along the stream and
nowhere else. -/
theorem stream_ahead {c : Cursor} (hl : c.latched = none) {n : Nat}
    (h : n ≤ c.stream.elements.length) :
    c.ahead n = { c with offset := (c.ahead n).offset } ∧
      (c.ahead n).stream = { elements := c.stream.elements.drop n, error := c.stream.error } := by
  induction n with
  | zero => exact ⟨rfl, rfl⟩
  | succ n ih =>
    obtain ⟨hc, hs⟩ := ih (by omega)
    have hl' : (c.ahead n).latched = none := by
      rw [hc]
      exact hl
    have hcons : (c.ahead n).stream.elements
        = c.stream.elements[n] :: c.stream.elements.drop (n + 1) := by
      rw [hs]
      exact List.drop_eq_getElem_cons h
    rw [ahead_succ, advance_of_stream_cons hl' hcons]
    obtain ⟨-, hrest, herr⟩ := Text.scan_of_elements_cons hcons
    refine ⟨?_, ?_⟩
    · rw [hc]
    · have herr' : (c.ahead n).stream.error = c.stream.error := by rw [hs]
      exact congrArg₂ Stream.mk hrest (herr.trans herr')

theorem latched_ahead {c : Cursor} (hl : c.latched = none) {n : Nat}
    (h : n ≤ c.stream.elements.length) : (c.ahead n).latched = none := by
  rw [(stream_ahead hl h).1]
  exact hl

/-- The advances of a cursor give the elements of its stream in order, and each takes the cursor
just past its element. -/
theorem advance_ahead_of_lt {c : Cursor} (hl : c.latched = none) {n : Nat}
    (h : n < c.stream.elements.length) :
    (c.ahead n).advance.outcome = .ok (some c.stream.elements[n].element) ∧
      (c.ahead (n + 1)).offset = c.stream.elements[n].stop := by
  have hcons : (c.ahead n).stream.elements
      = c.stream.elements[n] :: c.stream.elements.drop (n + 1) := by
    rw [(stream_ahead hl (Nat.le_of_lt h)).2]
    exact List.drop_eq_getElem_cons h
  rw [ahead_succ, advance_of_stream_cons (latched_ahead hl (Nat.le_of_lt h)) hcons]
  exact ⟨rfl, rfl⟩

/-- After the elements of its stream a cursor gives the error they end with, or nothing. -/
theorem advance_ahead_length {c : Cursor} (hl : c.latched = none) :
    (c.ahead c.stream.elements.length).advance.outcome = c.stream.ending := by
  have hs := (stream_ahead hl (Nat.le_refl _)).2
  rw [outcome_of_stream_nil (latched_ahead hl (Nat.le_refl _)) (by rw [hs, List.drop_length]), hs]
  rfl

/-- A cursor that has come to an error or to the end finds nothing more. -/
theorem exists_scan_of_advance {c : Cursor} {p : Parsed}
    (h : c.advance.cursor.scan = .ok (some p)) : ∃ q, c.scan = .ok (some q) := by
  cases hs : c.scan with
  | error e =>
    have hkept : c.advance.cursor = { c with latched := some e } := by simp only [advance, hs]
    rw [hkept] at h
    cases h
  | ok found =>
    cases found with
    | none =>
      simp only [advance, hs] at h
      cases h
    | some q => exact ⟨q, rfl⟩

theorem exists_scan_of_ahead {c : Cursor} {n : Nat} {p : Parsed}
    (h : (c.ahead n).scan = .ok (some p)) : ∃ q, c.scan = .ok (some q) := by
  induction n generalizing p with
  | zero => exact ⟨p, h⟩
  | succ n ih =>
    rw [ahead_succ] at h
    obtain ⟨q, hq⟩ := exists_scan_of_advance h
    exact ih hq

/-- The elements of its stream are all that a cursor ever finds. -/
theorem scan_ahead_iff {c : Cursor} (hl : c.latched = none) {n : Nat} {p : Parsed} :
    (c.ahead n).scan = .ok (some p) ↔ c.stream.elements[n]? = some p := by
  constructor
  · intro h
    induction n generalizing c with
    | zero =>
      rw [ahead, scan_of_unlatched hl] at h
      rw [stream, Text.streamFrom_of_some h, List.getElem?_cons_zero]
    | succ n ih =>
      obtain ⟨q, hq⟩ := exists_scan_of_ahead h
      rw [ahead, advance_of_scan hq] at h
      rw [scan_of_unlatched hl] at hq
      rw [stream, Text.streamFrom_of_some hq, List.getElem?_cons_succ]
      exact ih (c := { c with offset := q.stop }) hl h
  · intro h
    obtain ⟨hlt, rfl⟩ := List.getElem?_eq_some_iff.1 h
    have hcons : (c.ahead n).stream.elements
        = c.stream.elements[n] :: c.stream.elements.drop (n + 1) := by
      rw [(stream_ahead hl (Nat.le_of_lt hlt)).2]
      exact List.drop_eq_getElem_cons hlt
    rw [scan_of_unlatched (latched_ahead hl (Nat.le_of_lt hlt))]
    exact (Text.scan_of_elements_cons hcons).1

end Cursor

end Playscript
