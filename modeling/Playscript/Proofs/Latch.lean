import Playscript.Proofs.Peeking
import Playscript.Proofs.Stopping

/-!
# The latch of a cursor

A cursor that has failed keeps its error and its place. Both can change on their own, as a peek
fails without a trace and a seek to the present offset forgets the error; yet the error that is kept
is always the one that the text gives at the present offset.

* `Cursor.failed_of_perform`, `Cursor.recovered_of_perform`: how a cursor fails and recovers.
* `Cursor.Coherent.perform`, `Cursor.Coherent.after`: the error that is kept agrees with the text.
* `latch_coherent`: all this for sessions.
-/

namespace Playscript

namespace Cursor

/-- What one may do with a cursor: request something of it, or take a step of an iteration. -/
inductive Operation
  | request (r : Request)
  | iterate
  deriving DecidableEq, Repr

inductive Reply
  | answered (a : Answer)
  | iterated (given : Except Halt Element)

/-- An iteration advances, and has a word of its own for the end. -/
def perform (c : Cursor) : Operation → Cursor × Reply
  | .request r => ((c.serve r).1, .answered (c.serve r).2)
  | .iterate => (c.advance.cursor, .iterated (Engine.Outcome.iterated c.advance.outcome))

/-- The cursor after a number of operations. -/
def after (c : Cursor) (ops : List Operation) : Cursor := ops.foldl (fun c op => (c.perform op).1) c

/-- Every operation but a seek asks for an element. -/
def Operation.Asks : Operation → Prop
  | .request (.seek _) => False
  | _ => True

/-- A step forward, of an iteration or not. -/
def Operation.Advances : Operation → Prop
  | .request .advance => True
  | .iterate => True
  | _ => False

/-- The error that a reply raises. -/
def Reply.error? : Reply → Option ScriptError
  | .answered (.advanced (.error e)) => some e
  | .answered (.foretold (.error e)) => some e
  | .iterated (.error (.error e)) => some e
  | _ => none

/-- The reply to a seek that is allowed. -/
abbrev Reply.moved : Reply := .answered (.sought none)

/-- The reply to a seek that is not. -/
abbrev Reply.refused (r : SeekRefused) : Reply := .answered (.sought (some r))

/-! ## Single operations -/

variable {c : Cursor} {op : Operation} {e : ScriptError}

theorem peek_congr {c' : Cursor} (h : c.scan = c'.scan) : c.peek = c'.peek := by
  rw [peek, peek, h]

/-- What an operation replies depends on the scan and the offset of the cursor alone. -/
theorem reply_congr {c' : Cursor} (hscan : c.scan = c'.scan) (hoffset : c.offset = c'.offset)
    (op : Operation) : (c.perform op).2 = (c'.perform op).2 := by
  have houtcome : c.advance.outcome = c'.advance.outcome := by
    rw [outcome_advance, outcome_advance, peek_congr hscan]
  cases op with
  | iterate => simp only [perform, houtcome]
  | request r =>
    cases r with
    | advance => simp only [perform, serve, houtcome]
    | peek => simp only [perform, serve, peek_congr hscan]
    | seek offset =>
      by_cases h : 0 ≤ offset ∧ offset ≤ c'.offset
      · simp only [perform, serve, seek, hoffset, if_pos h]
      · simp only [perform, serve, seek, hoffset, if_neg h]

theorem peek_eq_error_iff : c.peek = .error e ↔ c.scan = .error e := by
  unfold peek
  cases c.scan with
  | error e' =>
    constructor
    · intro h
      obtain rfl : e' = e := Except.error.inj h
      rfl
    · intro h
      obtain rfl : e' = e := Except.error.inj h
      rfl
  | ok found =>
    constructor
    · intro h
      cases h
    · intro h
      cases h

/-- Who asks a cursor for an element is raised the error of its scan, if it has one. -/
theorem error?_perform (hop : op.Asks) : (c.perform op).2.error? = some e ↔ c.scan = .error e := by
  rw [← peek_eq_error_iff]
  cases op with
  | iterate =>
    simp only [perform, outcome_advance]
    cases c.peek with
    | error e' => simp [Engine.Outcome.iterated, Reply.error?]
    | ok found => cases found <;> simp [Engine.Outcome.iterated, Reply.error?]
  | request r =>
    cases r with
    | advance =>
      simp only [perform, serve, outcome_advance]
      cases c.peek <;> simp [Reply.error?]
    | peek =>
      simp only [perform, serve]
      cases c.peek <;> simp [Reply.error?]
    | seek offset => exact absurd hop id

theorem cursor_advance_of_error (h : c.scan = .error e) :
    c.advance.cursor = { c with latched := some e } := by
  simp only [advance, h]

theorem latched_advance_of_ok {found : Option Parsed} (h : c.scan = .ok found) :
    c.advance.cursor.latched = none := by
  have hl := unlatched_of_scan h
  cases found with
  | none => simp only [advance, h, hl]
  | some p => simp only [advance, h, hl]

theorem perform_of_advances (hop : op.Advances) : (c.perform op).1 = c.advance.cursor := by
  cases op with
  | iterate => rfl
  | request r =>
    cases r with
    | advance => rfl
    | peek => exact absurd hop id
    | seek offset => exact absurd hop id

theorem Operation.Advances.asks (hop : op.Advances) : op.Asks := by
  cases op with
  | iterate => trivial
  | request r =>
    cases r with
    | advance => trivial
    | peek => exact absurd hop id
    | seek offset => exact absurd hop id

/-- An operation is a step forward, a peek, a seek that is refused, or one that is allowed; what
each does to the cursor. -/
theorem perform_cases (c : Cursor) (op : Operation) :
    op.Advances ∨ (op = .request .peek ∧ (c.perform op).1 = c) ∨
      (∃ offset refused, op = .request (.seek offset) ∧ c.perform op = (c, .refused refused)) ∨
        ∃ (offset : Int) (back : Nat), op = .request (.seek offset) ∧
          c.perform op = ({ c with offset := back, latched := none }, .moved) := by
  cases op with
  | iterate => exact .inl trivial
  | request r =>
    cases r with
    | advance => exact .inl trivial
    | peek => exact .inr (.inl ⟨rfl, rfl⟩)
    | seek offset =>
      by_cases h : 0 ≤ offset ∧ offset ≤ c.offset
      · refine .inr (.inr (.inr ⟨offset, offset.toNat, rfl, ?_⟩))
        simp only [perform, serve, seek, if_pos h]
      · refine .inr (.inr (.inl ⟨offset, ⟨offset, c.offset⟩, rfl, ?_⟩))
        simp only [perform, serve, seek, if_neg h]

/-- Whatever error is kept, it is raised and nothing moves. -/
theorem perform_of_latched (hl : c.latched = some e) (hop : op.Asks) :
    (c.perform op).1 = c ∧ (c.perform op).2.error? = some e := by
  have hscan : c.scan = .error e := by simp only [scan, hl]
  refine ⟨?_, (error?_perform hop).2 hscan⟩
  rcases c.perform_cases op with hstep | ⟨-, hpeek⟩ | ⟨_, _, rfl, -⟩ | ⟨_, _, rfl, -⟩
  · rw [perform_of_advances hstep, (advance_of_latched hl).2]
  · exact hpeek
  · exact absurd hop id
  · exact absurd hop id

/-- A step that fails keeps its error; nothing else does. -/
theorem failed_of_perform (hl : c.latched = none) (hfailed : (c.perform op).1.failed = true) :
    op.Advances ∧ ∃ e, (c.perform op).2.error? = some e ∧
      (c.perform op).1 = { c with latched := some e } := by
  rcases c.perform_cases op with hstep | ⟨-, hpeek⟩ | ⟨_, _, -, hrefused⟩ | ⟨_, _, -, hmoved⟩
  · rw [perform_of_advances hstep] at hfailed ⊢
    cases hscan : c.scan with
    | error e =>
      exact ⟨hstep, e, (error?_perform hstep.asks).2 hscan, cursor_advance_of_error hscan⟩
    | ok found => simp [failed, latched_advance_of_ok hscan] at hfailed
  · simp [hpeek, failed, hl] at hfailed
  · simp [hrefused, failed, hl] at hfailed
  · simp [hmoved, failed] at hfailed

/-- Only a seek that is allowed lets a cursor go on that has failed. -/
theorem recovered_of_perform (hl : c.latched = some e) (hgone : (c.perform op).1.latched ≠ some e) :
    ∃ offset, op = .request (.seek offset) ∧ (c.perform op).2 = .moved := by
  by_cases hop : op.Asks
  · rw [(perform_of_latched hl hop).1] at hgone
    exact absurd hl hgone
  · rcases c.perform_cases op with hstep | ⟨rfl, -⟩ | ⟨_, _, -, hrefused⟩ | ⟨offset, _, rfl, hmoved⟩
    · exact absurd hstep.asks hop
    · exact absurd trivial hop
    · rw [hrefused] at hgone
      exact absurd hl hgone
    · exact ⟨offset, rfl, by rw [hmoved]⟩

/-- Whoever is raised an error finds the cursor where it was. -/
theorem offset_of_error (h : (c.perform op).2.error? = some e) :
    (c.perform op).1.offset = c.offset := by
  rcases c.perform_cases op with hstep | ⟨-, hpeek⟩ | ⟨_, _, -, hrefused⟩ | ⟨_, _, -, hmoved⟩
  · have hscan := (error?_perform hstep.asks).1 h
    rw [perform_of_advances hstep, cursor_advance_of_error hscan]
  · rw [hpeek]
  · rw [hrefused]
  · rw [hmoved] at h
    cases h

theorem perform_of_refused {r : SeekRefused} (h : (c.perform op).2 = .refused r) :
    (c.perform op).1 = c := by
  cases op with
  | iterate => cases h
  | request r =>
    cases r with
    | advance => cases h
    | peek => rfl
    | seek offset =>
      by_cases hback : 0 ≤ offset ∧ offset ≤ c.offset
      · simp only [perform, serve, seek, if_pos hback] at h
        cases h
      · simp only [perform, serve, seek, if_neg hback]

/-! ## Coherence -/

/-- The cursor is on this text, and the error that it keeps, if any, is the one that a scan at its
offset comes to. -/
structure Coherent (text : Text) (c : Cursor) : Prop where
  text_eq : c.text = text
  latch : ∀ e, c.latched = some e → text.scan c.offset = .error e

/-- There is nothing to agree with where no error is kept. -/
theorem coherent_of_unlatched (hl : c.latched = none) : Coherent c.text c where
  text_eq := rfl
  latch e he := by
    rw [hl] at he
    cases he

/-- A coherent cursor gives what its text does, whether it has failed or not. -/
theorem Coherent.scan {text : Text} (h : Coherent text c) : c.scan = text.scan c.offset := by
  cases hl : c.latched with
  | none => rw [scan_of_unlatched hl, h.text_eq]
  | some e => rw [h.latch e hl, Cursor.scan, hl]

theorem Coherent.perform {text : Text} (h : Coherent text c) (op : Operation) :
    Coherent text (c.perform op).1 := by
  rcases c.perform_cases op with hop | ⟨-, hpeek⟩ | ⟨_, _, -, hrefused⟩ | ⟨_, _, -, hmoved⟩
  · rw [perform_of_advances hop]
    constructor
    · rw [text_advance, h.text_eq]
    · intro e hl
      cases hscan : c.scan with
      | error e' =>
        rw [cursor_advance_of_error hscan] at hl ⊢
        obtain rfl : e' = e := Option.some.inj hl
        rw [← h.scan, hscan]
      | ok found =>
        rw [latched_advance_of_ok hscan] at hl
        cases hl
  · rw [hpeek]
    exact h
  · rw [hrefused]
    exact h
  · rw [hmoved]
    constructor
    · exact h.text_eq
    · intro e hl
      cases hl

theorem Coherent.after {text : Text} (h : Coherent text c) (ops : List Operation) :
    Coherent text (c.after ops) := by
  induction ops generalizing c with
  | nil => exact h
  | cons op ops ih => exact ih (h.perform op)

end Cursor

open Cursor (Operation)

/-- **The latch is coherent.** After any operations on a cursor its text is the same, and the next
operation replies as it would to a fresh cursor at the present offset. A cursor that has failed is
where the text gives the error that it keeps. It raises that error and no other to whoever asks,
which is to say that it would raise any error that were kept instead, and it does not move. Errors,
peeks and refused seeks leave the offset alone. A cursor fails by a step that raises, and recovers
by a seek that is allowed. -/
theorem latch_coherent (text : Text) (origin : Option Text) (ops : List Operation)
    (op : Operation) :
    let c := (Cursor.ofText text origin).after ops
    let fresh : Cursor := { text, origin, offset := c.offset }
    c.text = text ∧ (c.perform op).1.text = text ∧
    (c.perform op).2 = (fresh.perform op).2 ∧
    (∀ e, c.latched = some e → text.scan c.offset = .error e) ∧
    (∀ kept, op.Asks →
      let failed : Cursor := { c with latched := some kept }
      (failed.perform op).1 = failed ∧ (failed.perform op).2.error? = some kept) ∧
    (∀ e, (c.perform op).2.error? = some e → (c.perform op).1.offset = c.offset) ∧
    (op = .request .peek → (c.perform op).1 = c) ∧
    (∀ r, (c.perform op).2 = .refused r → (c.perform op).1 = c) ∧
    (c.failed = false → (c.perform op).1.failed = true →
      op.Advances ∧ ∃ e, (c.perform op).2.error? = some e ∧ (c.perform op).1.latched = some e) ∧
    (∀ e, c.latched = some e → (c.perform op).1.latched ≠ some e →
      ∃ offset, op = .request (.seek offset) ∧ (c.perform op).2 = .moved) := by
  intro c fresh
  have hnew : Cursor.Coherent text (Cursor.ofText text origin) := by
    constructor
    · rfl
    · intro e hl
      cases hl
  have hc : Cursor.Coherent text c := hnew.after ops
  have hfresh : fresh.scan = text.scan c.offset := rfl
  refine ⟨hc.text_eq, (hc.perform op).text_eq, ?_, hc.latch, ?_, ?_, ?_, ?_, ?_, ?_⟩
  · exact Cursor.reply_congr (hc.scan.trans hfresh.symm) rfl op
  · intro kept hop failed
    exact Cursor.perform_of_latched rfl hop
  · intro e herror
    exact Cursor.offset_of_error herror
  · rintro rfl
    rfl
  · intro r hrefused
    exact Cursor.perform_of_refused hrefused
  · intro hgood hfailed
    have hl : c.latched = none := by simpa [Cursor.failed] using hgood
    obtain ⟨hop, e, herror, hkept⟩ := Cursor.failed_of_perform hl hfailed
    exact ⟨hop, e, herror, by rw [hkept]⟩
  · intro e hl hgone
    exact Cursor.recovered_of_perform hl hgone

/-- The second line is no directive. -/
def stumble : Text := "[A] one\n@bogus(x)".toList

/-- A cursor before its second line, and after it has failed there, been asked once more and been
denied a seek. -/
def stumbling (failed : Bool) : List Operation :=
  .request .advance :: if failed then [.iterate, .request .peek, .request (.seek 99)] else []

theorem latch_coherent_stumble :
    let c := (Cursor.ofText stumble none).after (stumbling false)
    let failed := (Cursor.ofText stumble none).after (stumbling true)
    (c.failed = false ∧ (c.perform .iterate).1.failed = true ∧
      ∃ e, (c.perform .iterate).2.error? = some e ∧ (c.perform .iterate).1.latched = some e) ∧
    ∃ e, failed.latched = some e ∧ stumble.scan failed.offset = .error e ∧
      (failed.perform .iterate).1 = failed ∧ (failed.perform .iterate).2.error? = some e ∧
      (failed.perform (.request (.seek 8))).1.latched ≠ some e ∧
      (failed.perform (.request (.seek 8))).2 = .moved := by
  intro c failed
  have hgood : c.failed = false := by decide +kernel
  have hfails : (c.perform .iterate).1.failed = true := by decide +kernel
  have hlatched : failed.latched.isSome = true := by decide +kernel
  have hfree : (failed.perform (.request (.seek 8))).1.latched = none := by decide +kernel
  obtain ⟨e, hl⟩ := Option.isSome_iff_exists.1 hlatched
  have hsame : failed = { failed with latched := some e } := by rw [← hl]
  have hgone : (failed.perform (.request (.seek 8))).1.latched ≠ some e := by simp [hfree]
  obtain ⟨-, -, -, -, -, -, -, -, hfailed, -⟩ :=
    latch_coherent stumble none (stumbling false) .iterate
  obtain ⟨-, -, -, hscan, hraise, -⟩ := latch_coherent stumble none (stumbling true) .iterate
  obtain ⟨-, -, -, -, -, -, -, -, -, hseek⟩ :=
    latch_coherent stumble none (stumbling true) (.request (.seek 8))
  obtain ⟨hstays, herror⟩ := hraise e trivial
  obtain ⟨offset, -, hmoved⟩ := hseek e hl hgone
  refine ⟨⟨hgood, hfails, (hfailed hgood hfails).2⟩, e, hl, hscan e hl, ?_, ?_, hgone, hmoved⟩
  · rw [hsame]
    exact hstays
  · rw [hsame]
    exact herror

end Playscript
