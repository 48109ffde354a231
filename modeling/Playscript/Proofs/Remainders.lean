import Playscript.Proofs.Joining
import Playscript.Proofs.Latch

/-!
# Remainders

What a cursor gives from an offset on depends on the text from there on, and on nothing before it.
A new cursor on the remaining text gives the same elements, and comes to the end or to an error at
the same step; only the offsets are smaller by what was left out. The place of an error is told for
the text that it was found in.

* `fault_toError_of_drop`, `Text.scan_of_rest`: defects and scans in the whole text and in the rest
  of it.
* `Remainder.advance`: one step of two cursors, on the text and on the rest of it.
* `ahead_remaining`: all their steps.
-/

namespace Playscript

/-- A defect in the rest of a text is the same fault in the whole text, which tells its offset in
that. -/
theorem fault_toError_of_drop {source rest here : Text} {k : Nat} (hrest : source.drop k = rest)
    {mark : Mark} {d : Defect} (hd : mark.read here = .error d) {n : Nat} (h : n < rest.length) :
    (d.toError source (n + k)).fault = (d.toError rest n).fault.shift k := by
  cases d with
  | refused fault => exact (Mark.shift_of_refused hd k).symm
  | missing what reach =>
    have hlength := congrArg List.length hrest
    rw [List.length_drop] at hlength
    have hstop : ((n + k + reach : Nat) : Int) = ((n + reach : Nat) : Int) + k := by omega
    rw [toError_missing (by omega), toError_missing (Nat.le_of_lt h)]
    simp only [ScriptError.locate, Fault.shift, hstop]

/-- How a scan of a text is related to that of the rest of it: both find nothing, or an element that
ends that many characters further on, or the same fault. -/
inductive ShiftedScan (k : Nat) :
    Except ScriptError (Option Parsed) → Except ScriptError (Option Parsed) → Prop
  | nothing : ShiftedScan k (.ok none) (.ok none)
  | element (p : Parsed) : ShiftedScan k (.ok (some (p.shift k))) (.ok (some p))
  | error {e e' : ScriptError} (h : e.fault = e'.fault.shift k) :
      ShiftedScan k (.error e) (.error e')

namespace Text

variable {source rest : Text} {k : Nat}

theorem nextStart_of_drop (h : source.drop k = rest) (n : Nat) :
    source.nextStart (n + k) = rest.nextStart n + k := by
  rw [nextStart, nextStart, ← h, List.drop_drop, Nat.add_comm k n]
  omega

/-- A scan of a text finds what it finds in the rest of it. -/
theorem scan_of_rest (h : source.drop k = rest) (n : Nat) :
    ShiftedScan k (source.scan (n + k)) (rest.scan n) := by
  have hchar : source[rest.nextStart n + k]? = rest[rest.nextStart n]? := by
    rw [← h, List.getElem?_drop, Nat.add_comm]
  have hhere : source.drop (rest.nextStart n + k) = rest.drop (rest.nextStart n) := by
    rw [← h, List.drop_drop, Nat.add_comm]
  rw [scan_eq, scan_eq, nextStart_of_drop h, hchar, hhere]
  cases hmark : rest[rest.nextStart n]?.bind Mark.ofChar? with
  | none => exact .nothing
  | some mark =>
    have hlt : rest.nextStart n < rest.length :=
      (List.getElem?_eq_some_iff.1 (bind_ofChar?_eq_some_iff.1 hmark)).1
    dsimp only
    cases hread : mark.read (rest.drop (rest.nextStart n)) with
    | error d => exact .error (fault_toError_of_drop h hread hlt)
    | ok r =>
      have helement := ShiftedScan.element (k := k) (r.startingAt (rest.nextStart n))
      rw [Parsed.shift, Reading.startingAt, Nat.add_right_comm] at helement
      exact helement

end Text

/-! ## Cursors -/

/-- Two cursors, of which the second is on what the text of the first holds from `k` on. They are at
the same place, and scan the same there. -/
structure Remainder (k : Nat) (whole rest : Cursor) : Prop where
  text : rest.text = whole.text.drop k
  offset : whole.offset = rest.offset + k
  scan : ShiftedScan k whole.scan rest.scan

/-- Two cursors that are `k` characters apart and give the same: an equal element, nothing, or the
same fault, which says the same and tells an offset as far apart as the cursors are. -/
structure Cursor.InStep (k : Nat) (whole rest : Cursor) : Prop where
  offset : whole.offset = rest.offset + k
  outcome : whole.advance.outcome.mapError ScriptError.fault =
    rest.advance.outcome.mapError fun e => e.fault.shift k
  message : ∀ e e', whole.advance.outcome = .error e → rest.advance.outcome = .error e' →
    e.message = e'.message

namespace Remainder

variable {k : Nat} {whole rest : Cursor}

theorem of_offset (htext : rest.text = whole.text.drop k) (hl : whole.latched = none)
    (hl' : rest.latched = none) (ho : whole.offset = rest.offset + k) : Remainder k whole rest := by
  refine ⟨htext, ho, ?_⟩
  rw [Cursor.scan_of_unlatched hl, Cursor.scan_of_unlatched hl', htext, ho]
  exact Text.scan_of_rest rfl rest.offset

theorem outcome (h : Remainder k whole rest) :
    whole.advance.outcome.mapError ScriptError.fault =
      rest.advance.outcome.mapError fun e => e.fault.shift k := by
  have hscan := h.scan
  unfold Cursor.advance
  generalize whole.scan = x at hscan ⊢
  generalize rest.scan = y at hscan ⊢
  cases hscan with
  | nothing => rfl
  | element p => rfl
  | error hfault => exact congrArg Except.error hfault

theorem inStep (h : Remainder k whole rest) : whole.InStep k rest where
  offset := h.offset
  outcome := h.outcome
  message e e' he he' := by
    have houtcome := h.outcome
    rw [he, he'] at houtcome
    have hfault : e.fault = e'.fault.shift k := Except.error.inj houtcome
    rw [ScriptError.message, hfault]
    exact ScriptError.message_shift k 0 e'

/-- The step leaves the cursors at one place again, with the error latched in both or in none. -/
theorem advance (h : Remainder k whole rest) :
    Remainder k whole.advance.cursor rest.advance.cursor := by
  have hscan := h.scan
  generalize hx : whole.scan = x at hscan
  generalize hy : rest.scan = y at hscan
  cases hscan with
  | nothing =>
    simp only [Cursor.advance, hx, hy]
    exact h
  | element p =>
    have hl := Cursor.unlatched_of_scan hx
    have hl' := Cursor.unlatched_of_scan hy
    rw [Cursor.advance_of_scan hx, Cursor.advance_of_scan hy]
    exact of_offset h.text hl hl' rfl
  | error hfault =>
    rw [Cursor.cursor_advance_of_error hx, Cursor.cursor_advance_of_error hy]
    exact ⟨h.text, h.offset, .error hfault⟩

theorem ahead (h : Remainder k whole rest) (n : Nat) :
    Remainder k (whole.ahead n) (rest.ahead n) := by
  induction n with
  | zero => exact h
  | succ n ih =>
    rw [Cursor.ahead_succ, Cursor.ahead_succ]
    exact ih.advance

end Remainder

open Cursor (Operation)

/-- **Reading on is reading the rest.** A cursor that is put anywhere in a text, and a new cursor on
the text from there on, stay in step: each advance gives an equal element, nothing, or an error with
the same fault and message, and offsets differ by the same number of characters all along. Whatever
was done with a cursor before, and even if it has failed, a new cursor on what remains of its text
goes on like the cursor itself. -/
theorem ahead_remaining (text : Text) (origin origin' : Option Text) :
    (∀ k n, (({ text, origin, offset := k } : Cursor).ahead n).InStep k
      ((Cursor.ofText (text.drop k) origin').ahead n)) ∧
    ∀ (ops : List Operation) (n : Nat),
      let c := (Cursor.ofText text origin).after ops
      (c.ahead n).InStep c.offset ((Cursor.ofText c.remaining origin').ahead n) := by
  constructor
  · intro k n
    have hstart : Remainder k { text, origin, offset := k } (Cursor.ofText (text.drop k) origin') :=
      .of_offset rfl rfl rfl (Nat.zero_add k).symm
    exact (hstart.ahead n).inStep
  · intro ops n c
    have hc : Cursor.Coherent text c :=
      (Cursor.coherent_of_unlatched (c := Cursor.ofText text origin) rfl).after ops
    have hscan : ShiftedScan c.offset (text.scan (0 + c.offset)) (Text.scan c.remaining 0) := by
      rw [Cursor.remaining, hc.text_eq]
      exact Text.scan_of_rest rfl 0
    rw [Nat.zero_add, ← hc.scan] at hscan
    have hstart : Remainder c.offset c (Cursor.ofText c.remaining origin') :=
      { text := rfl
        offset := (Nat.zero_add c.offset).symm
        scan := hscan }
    exact (hstart.ahead n).inStep

end Playscript
