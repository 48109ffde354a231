import Playscript.Proofs.LineEnds
import Playscript.Proofs.Writing

/-!
# Joined scripts

A script that is written below another one, on a line of its own, goes on as if it stood alone. The
last element of the upper script ends at the seam whatever it is, provided that the lower one opens
with a directive or a comment. What the lower script gives is given in the same order; its offsets
and the lines of its errors are shifted by what stands above.

* `endPosition_seam`, `lineAt_seam`, `toError_seam`: places and errors below the seam.
* `scan_below`, `scan_above`: scans on the two sides of the seam.
* `Above.advance`, `Below.advance`: one step of a cursor on the joined text.
* `ahead_joined`: all its steps.
-/

namespace Playscript

/-! ## Shifts -/

/-- The fault, in a text with that many more characters before it. -/
def Fault.shift (chars : Nat) : Fault → Fault
  | .malformed offset expected note => .malformed (offset + chars) expected note
  | fault => fault

/-- The error, in a text with that many more characters and lines before it. Its column and the line
that it shows are its own. -/
def ScriptError.shift (chars lines : Nat) (e : ScriptError) : ScriptError :=
  { e with fault := e.fault.shift chars, line := e.line.map (· + lines) }

def Parsed.shift (chars : Nat) (p : Parsed) : Parsed := { p with stop := p.stop + chars }

def shiftScan (chars lines : Nat) :
    Except ScriptError (Option Parsed) → Except ScriptError (Option Parsed)
  | .ok found => .ok (found.map (Parsed.shift chars))
  | .error e => .error (e.shift chars lines)

/-- A shift changes neither what an error says nor its kind. -/
theorem ScriptError.message_shift (chars lines : Nat) (e : ScriptError) :
    (e.shift chars lines).message = e.message := by
  obtain ⟨fault, line, column, context⟩ := e
  cases fault <;> rfl

/-! ## Places below a seam -/

namespace Text

variable (s t : Text)

theorem drop_seam (n : Nat) : (s ++ '\n' :: t).drop (n + (s.length + 1)) = t.drop n := by
  have hlength : s.length + 1 = (s ++ ['\n']).length := by simp
  rw [List.append_cons, Nat.add_comm n, hlength, List.drop_length_add_append]

theorem take_seam (n : Nat) :
    (s ++ '\n' :: t).take (n + (s.length + 1)) = s ++ '\n' :: t.take n := by
  have hlength : s.length + 1 = (s ++ ['\n']).length := by simp
  rw [List.append_cons, Nat.add_comm n, hlength, List.take_length_add_append, ← List.append_cons]

theorem clamp_seam (n : Nat) :
    (s ++ '\n' :: t).clamp ↑(n + (s.length + 1)) = t.clamp n + (s.length + 1) := by
  simp only [clamp_natCast, List.length_append, List.length_cons]
  omega

theorem lastLine_seam : lastLine (s ++ '\n' :: t) = lastLine t := by
  have hreverse : (s ++ '\n' :: t).reverse = t.reverse ++ '\n' :: s.reverse := by simp
  rw [lastLine, hreverse, lastLine]
  have hstop : ('\n' :: s.reverse).takeWhile (· ≠ '\n') = [] := by simp
  rw [List.takeWhile_append]
  split
  · rename_i hall
    have hself := (List.takeWhile_prefix (· ≠ '\n') (l := t.reverse)).eq_of_length hall
    rw [hstop, hself, List.append_nil]
  · rfl

theorem endPosition_seam :
    endPosition (s ++ '\n' :: t) =
      ⟨(endPosition t).line + (s.count '\n' + 1), (endPosition t).column⟩ := by
  simp only [endPosition, lastLine_seam, List.count_append, List.count_cons_self,
    Position.mk.injEq, and_true]
  omega

theorem positionOf_seam (n : Nat) :
    (s ++ '\n' :: t).positionOf ↑(n + (s.length + 1)) =
      ⟨(t.positionOf n).line + (s.count '\n' + 1), (t.positionOf n).column⟩ := by
  rw [positionOf, clamp_seam, take_seam, endPosition_seam, positionOf]

theorem lineAt_seam (n : Nat) :
    (s ++ '\n' :: t).lineAt ↑(n + (s.length + 1)) = t.lineAt n := by
  simp only [lineAt, clamp_seam, take_seam, drop_seam, lastLine_seam]

end Text

/-- An error below the seam is found at its place shifted. -/
theorem locate_seam (s t : Text) (fault : Fault) (n : Nat) :
    ScriptError.locate { fault := fault.shift (s.length + 1) } (s ++ '\n' :: t)
        ↑(n + (s.length + 1)) =
      (ScriptError.locate { fault } t n).shift (s.length + 1) (s.count '\n' + 1) := by
  simp only [ScriptError.locate, ScriptError.shift, Text.positionOf_seam, Text.lineAt_seam,
    Option.map_some]
  rw [Int.natCast_add]

/-- Only what is malformed is said to be so at an offset. -/
theorem DirectiveKind.shift_of_resolve {kind : DirectiveKind} {args : List Text} {fault : Fault}
    (h : kind.resolve args = .error fault) (chars : Nat) : fault.shift chars = fault := by
  unfold DirectiveKind.resolve at h
  split at h <;> cases h <;> rfl

theorem Directive.shift_of_resolve {name : Text} {args : List Text} {fault : Fault}
    (h : Directive.resolve name args = .error fault) (chars : Nat) : fault.shift chars = fault := by
  rcases Directive.resolve_cases name args with ⟨kind, hkind⟩ | hunknown
  · exact DirectiveKind.shift_of_resolve (hkind.symm.trans h) chars
  · obtain rfl := Except.error.inj (hunknown.symm.trans h)
    rfl

theorem Mark.shift_of_refused {mark : Mark} {here : Text} {fault : Fault}
    (h : mark.read here = .error (.refused fault)) (chars : Nat) : fault.shift chars = fault := by
  cases mark with
  | comment => cases h
  | dialogue =>
    simp only [read, readDialogue] at h
    split at h <;> cases h
  | directive =>
    simp only [read, readDirective] at h
    split at h
    · cases h
    · split at h
      · split at h
        · split at h
          · cases h
          · rename_i hresolve
            cases h
            exact Directive.shift_of_resolve hresolve chars
        · cases h
      · cases h

theorem toError_seam (s t : Text) {mark : Mark} {here : Text} {d : Defect}
    (hd : mark.read here = .error d) {n : Nat} (h : n ≤ t.length) :
    d.toError (s ++ '\n' :: t) (n + (s.length + 1)) =
      (d.toError t n).shift (s.length + 1) (s.count '\n' + 1) := by
  cases d with
  | refused fault =>
    have hlocate := locate_seam s t fault n
    rw [Mark.shift_of_refused hd] at hlocate
    exact hlocate
  | missing what reach =>
    have hle : n + (s.length + 1) ≤ (s ++ '\n' :: t).length := by
      simp only [List.length_append, List.length_cons]
      omega
    have hreach : n + (s.length + 1) + reach = n + reach + (s.length + 1) := by omega
    rw [toError_missing hle, toError_missing h, hreach, ← locate_seam, Fault.shift,
      Int.natCast_add (n + reach)]

/-! ## Scans below the seam -/

namespace Text

theorem nextStart_seam (s t : Text) (n : Nat) :
    (s ++ '\n' :: t).nextStart (n + (s.length + 1)) = t.nextStart n + (s.length + 1) := by
  rw [nextStart, drop_seam, nextStart]
  omega

/-- Below the seam a scan finds what it finds in the lower text. -/
theorem scan_below (s t : Text) (n : Nat) :
    (s ++ '\n' :: t).scan (n + (s.length + 1)) =
      shiftScan (s.length + 1) (s.count '\n' + 1) (t.scan n) := by
  have hchar : (s ++ '\n' :: t)[t.nextStart n + (s.length + 1)]? = t[t.nextStart n]? := by
    rw [← List.head?_drop, drop_seam, List.head?_drop]
  rw [scan_eq, scan_eq, nextStart_seam, hchar, drop_seam]
  cases hmark : t[t.nextStart n]?.bind Mark.ofChar? with
  | none => rfl
  | some mark =>
    have hlt : t.nextStart n < t.length :=
      (List.getElem?_eq_some_iff.1 (bind_ofChar?_eq_some_iff.1 hmark)).1
    dsimp only
    cases hread : mark.read (t.drop (t.nextStart n)) with
    | error d => exact congrArg Except.error (toError_seam s t hread (Nat.le_of_lt hlt))
    | ok r =>
      have hstop : t.nextStart n + (s.length + 1) + r.size =
          t.nextStart n + r.size + (s.length + 1) := by omega
      simp only [shiftScan, Option.map_some, Reading.startingAt, Parsed.shift, hstop]

end Text

/-! ## Scans above the seam -/

theorem endsBody_seam (body t : Text) : endsBody (body ++ '\n' :: t) = endsBody body := by
  cases body with
  | nil => rfl
  | cons c body => rw [List.cons_append, endsBody_cons, endsBody_cons]

/-- A body ends at the seam or before it. -/
theorem splitBody_seam (body : Text) {t : Text} (ht : endsBody t = true) :
    splitBody (body ++ '\n' :: t) =
      ((splitBody body).1,
        if (splitBody body).2 = [] then t else (splitBody body).2 ++ '\n' :: t) := by
  induction body with
  | nil => simp [splitBody, ht]
  | cons c body ih =>
    rw [List.cons_append, splitBody, splitBody, endsBody_seam]
    split
    · rename_i hcut
      have hbody : body ≠ [] := by
        rintro rfl
        exact absurd hcut.2 (by decide)
      rw [if_neg hbody]
    · rw [ih]

/-- How a reading fares when the text goes on below. It gives the same element and ends at the same
place; or it ends where the text did, and now takes in the line feed as well. -/
structure Reading.Reaches (here : Text) (r r' : Reading) : Prop where
  element : r'.element = r.element
  size : r'.size = r.size ∨ r.size = here.length ∧ r'.size = here.length + 1

/-- A dialogue that is read names its speaker between brackets on one line. -/
theorem exists_speaker {after : Text} {r : Reading} (h : readDialogue ('[' :: after) = .ok r) :
    ∃ name rest, after = name ++ ']' :: rest ∧
      ∀ c ∈ name, c ≠ ']' ∧ Text.isLineBreak c = false := by
  by_cases hclosed : (restOfLine after).contains ']' = true
  · exact exists_closed hclosed
  · simp only [readDialogue, List.drop_succ_cons, List.drop_zero, if_neg hclosed] at h
    cases h

theorem readDialogue_above {after t : Text} {r : Reading} (ht : endsBody t = true)
    (h : readDialogue ('[' :: after) = .ok r) :
    ∃ r', readDialogue ('[' :: after ++ '\n' :: t) = .ok r' ∧ r.Reaches ('[' :: after) r' := by
  obtain ⟨name, rest, rfl, hname⟩ := exists_speaker h
  have hjoined : '[' :: (name ++ ']' :: rest) ++ '\n' :: t =
      '[' :: (name ++ ']' :: (rest ++ '\n' :: t)) := by simp
  rw [readDialogue_closed hname] at h
  rw [hjoined, readDialogue_closed hname, splitBody_seam rest ht]
  obtain rfl := Except.ok.inj h
  refine ⟨_, rfl, rfl, ?_⟩
  have htne : t ≠ [] := by
    rintro rfl
    cases ht
  by_cases hopen : (splitBody rest).2 = []
  · -- The body is all the rest of the upper text.
    have hlength := length_splitBody rest
    simp only [hopen, htne, if_true, if_false, List.length_nil] at hlength ⊢
    simp only [List.length_cons, List.length_append]
    omega
  · simp [hopen]

/-- A directive that is read is a call on one line. -/
theorem exists_call {after : Text} {r : Reading} (h : readDirective ('@' :: after) = .ok r) :
    ∃ name raw rest, after = name ++ '(' :: (raw ++ ')' :: rest) ∧ name ≠ [] ∧
      (∀ c ∈ name, isNameLetter c = true) ∧
      ∀ c ∈ raw, c ≠ ')' ∧ Text.isLineBreak c = false := by
  have hsplit := List.takeWhile_append_dropWhile (p := isNameLetter) (l := after)
  have hletters : ∀ c ∈ after.takeWhile isNameLetter, isNameLetter c = true :=
    fun c hc => List.mem_takeWhile_imp hc
  rw [readDirective_eq] at h
  generalize after.takeWhile isNameLetter = name at *
  generalize after.dropWhile isNameLetter = tail at *
  subst hsplit
  by_cases hne : name = []
  · simp [hne] at h
  · simp only [if_neg hne] at h
    split at h
    · rename_i inner
      by_cases hclosed : (restOfLine inner).contains ')' = true
      · obtain ⟨raw, rest, rfl, hraw⟩ := exists_closed hclosed
        exact ⟨name, raw, rest, rfl, hne, hletters, hraw⟩
      · simp only [readArguments, if_neg hclosed] at h
        cases h
    · cases h

/-- A directive is read up to its closing parenthesis, whatever follows. -/
theorem readDirective_append {after : Text} {r : Reading} (h : readDirective ('@' :: after) = .ok r)
    (t : Text) : readDirective ('@' :: after ++ t) = .ok r := by
  obtain ⟨name, raw, rest, rfl, hne, hname, hraw⟩ := exists_call h
  have hjoined : '@' :: (name ++ '(' :: (raw ++ ')' :: rest)) ++ t =
      '@' :: (name ++ '(' :: (raw ++ ')' :: (rest ++ t))) := by simp
  rw [hjoined, readDirective_call hne hname hraw, ← h, readDirective_call hne hname hraw]

theorem readDirective_above {after t : Text} {r : Reading}
    (h : readDirective ('@' :: after) = .ok r) :
    ∃ r', readDirective ('@' :: after ++ '\n' :: t) = .ok r' ∧ r.Reaches ('@' :: after) r' :=
  ⟨r, readDirective_append h _, rfl, .inl rfl⟩

/-- A comment is read up to the first line feed, whatever follows. -/
theorem readComment_append {after : Text} (hfeed : '\n' ∈ after) (t : Text) :
    readComment ('#' :: after ++ t) = readComment ('#' :: after) := by
  obtain ⟨note, rest, rfl, hnote⟩ := List.eq_append_cons_of_mem hfeed
  have hjoined : '#' :: (note ++ '\n' :: rest) ++ t = '#' :: (note ++ '\n' :: (rest ++ t)) := by
    simp
  rw [hjoined, readComment_line hnote (.inr ⟨_, rfl⟩), readComment_line hnote (.inr ⟨_, rfl⟩)]
  simp

/-- A comment on the last line of a text is the rest of it. -/
theorem readComment_last {after : Text} (hfeed : '\n' ∉ after) :
    readComment ('#' :: after) = ⟨.comment, after.length + 1, []⟩ := by
  have hline := readComment_line hfeed (.inl rfl)
  rwa [List.append_nil] at hline

theorem readComment_above (after t : Text) :
    (readComment ('#' :: after)).Reaches ('#' :: after)
      (readComment ('#' :: after ++ '\n' :: t)) := by
  by_cases hfeed : '\n' ∈ after
  · rw [readComment_append hfeed]
    exact ⟨rfl, .inl rfl⟩
  · rw [List.cons_append, readComment_line hfeed (.inr ⟨_, rfl⟩), readComment_last hfeed]
    exact ⟨rfl, .inr (by simp)⟩

theorem Mark.read_above {mark : Mark} {after t : Text} {r : Reading} (ht : endsBody t = true)
    (h : mark.read (mark.char :: after) = .ok r) :
    ∃ r', mark.read (mark.char :: after ++ '\n' :: t) = .ok r' ∧
      r.Reaches (mark.char :: after) r' := by
  cases mark with
  | dialogue => exact readDialogue_above ht h
  | directive => exact readDirective_above h
  | comment =>
    obtain rfl := Except.ok.inj h
    exact ⟨_, rfl, readComment_above after t⟩

/-- What is read at the first mark of a text is found there, though more text may follow. -/
theorem Text.scan_append_of_read {s t : Text} {offset : Nat} {mark : Mark} {r : Reading}
    (hmark : s[s.nextStart offset]? = some mark.char)
    (hread : mark.read (mark.char :: s.drop (s.nextStart offset + 1) ++ t) = .ok r) :
    (s ++ t).scan offset = .ok (some (r.startingAt (s.nextStart offset))) := by
  have hhere := drop_of_getElem? hmark
  have hlt : s.nextStart offset < s.length := (List.getElem?_eq_some_iff.1 hmark).1
  have hle : offset ≤ s.nextStart offset := le_nextStart ..
  have hdrop : (s ++ t).drop offset =
      (s.drop offset).takeWhile isBlank ++ (mark.char :: s.drop (s.nextStart offset + 1) ++ t) := by
    rw [List.drop_append_of_le_length (by omega), ← List.append_assoc, ← hhere,
      takeWhile_append_drop_nextStart]
  exact scan_of_drop hdrop (fun c hc => List.mem_takeWhile_imp hc) rfl hread

/-- Above the seam a scan finds what it finds in the upper text. -/
theorem Text.scan_above {s t : Text} {offset : Nat} {p : Parsed} (ht : endsBody t = true)
    (h : s.scan offset = .ok (some p)) :
    ∃ p', (s ++ '\n' :: t).scan offset = .ok (some p') ∧ p'.element = p.element ∧
      (p'.stop = p.stop ∨ p.stop = s.length ∧ p'.stop = s.length + 1) := by
  obtain ⟨mark, r, hmark, hread, rfl⟩ := scan_eq_some_iff.1 h
  have hhere := drop_of_getElem? hmark
  have hlt : s.nextStart offset < s.length := (List.getElem?_eq_some_iff.1 hmark).1
  rw [hhere] at hread
  obtain ⟨r', hread', hreaches⟩ := Mark.read_above ht hread
  refine ⟨_, scan_append_of_read hmark hread', hreaches.element, ?_⟩
  have hlength := congrArg List.length hhere
  rw [List.length_drop] at hlength
  have hsize := hreaches.size
  rw [← hlength] at hsize
  simp only [Reading.startingAt]
  omega

/-! ## Cursors -/

/-- A cursor gives these elements and then nothing, and has nothing but blanks left. -/
structure Cursor.Completes (c : Cursor) (es : List Element) : Prop where
  elements : ∀ (n : Nat) (h : n < es.length), (c.ahead n).advance.outcome = .ok (some es[n])
  nothing : (c.ahead es.length).advance.outcome = .ok none
  blank : ∀ a ∈ (c.ahead es.length).remaining, Text.isBlank a = true

/-- A cursor on the upper text, and one at the same place of the joined text, or just past the seam
where the first is at the end of its text. -/
structure Above (s t : Text) (c c' : Cursor) : Prop where
  text : c.text = s
  text' : c'.text = s ++ '\n' :: t
  latched : c.latched = none
  latched' : c'.latched = none
  inside : c.offset ≤ s.length
  offset : c'.offset = c.offset ∨ c.offset = s.length ∧ c'.offset = s.length + 1

namespace Above

variable {s t : Text} {c c' : Cursor}

/-- The upper text gives its elements as if nothing stood below. -/
theorem advance (h : Above s t c c') (ht : endsBody t = true) {e : Element}
    (he : c.advance.outcome = .ok (some e)) :
    c'.advance.outcome = .ok (some e) ∧ Above s t c.advance.cursor c'.advance.cursor := by
  obtain ⟨p, hscan, rfl⟩ := Cursor.exists_scan_of_outcome he
  have hspan := Cursor.lt_stop_of_scan hscan
  rw [h.text] at hspan
  have hoffset : c'.offset = c.offset := by
    rcases h.offset with hsame | ⟨hend, -⟩
    · exact hsame
    · omega
  have hs : s.scan c.offset = .ok (some p) := by
    rw [← hscan, Cursor.scan_of_unlatched h.latched, h.text]
  obtain ⟨p', hs', helement, hstop⟩ := Text.scan_above (t := t) ht hs
  have hscan' : c'.scan = .ok (some p') := by
    rw [Cursor.scan_of_unlatched h.latched', h.text', hoffset, hs']
  rw [Cursor.advance_of_scan hscan, Cursor.advance_of_scan hscan']
  refine ⟨by rw [helement], ?_⟩
  exact { h with inside := hspan.2, offset := hstop }

theorem ahead (h : Above s t c c') (ht : endsBody t = true) {es : List Element}
    (hes : ∀ (n : Nat) (h : n < es.length), (c.ahead n).advance.outcome = .ok (some es[n])) :
    ∀ n ≤ es.length, Above s t (c.ahead n) (c'.ahead n) := by
  intro n hn
  induction n with
  | zero => exact h
  | succ n ih =>
    rw [Cursor.ahead_succ, Cursor.ahead_succ]
    exact ((ih (by omega)).advance ht (hes n hn)).2

/-- Where only blanks are left above the seam, a scan goes on below. -/
theorem scan (h : Above s t c c') (hblank : ∀ a ∈ c.remaining, Text.isBlank a = true) :
    c'.scan = shiftScan (s.length + 1) (s.count '\n' + 1) (t.scan 0) := by
  have hbelow := Text.scan_below s t 0
  rw [Nat.zero_add] at hbelow
  rw [Cursor.scan_of_unlatched h.latched', h.text', ← hbelow]
  rcases h.offset with hsame | ⟨-, hpast⟩
  · have hgap : ∀ a ∈ s.drop c.offset ++ ['\n'], Text.isBlank a = true := by
      intro a ha
      rcases List.mem_append.1 ha with ha | ha
      · rw [Cursor.remaining, h.text] at hblank
        exact hblank a ha
      · obtain rfl := List.mem_singleton.1 ha
        decide
    have hinside := h.inside
    have hdrop : (s ++ '\n' :: t).drop c.offset = s.drop c.offset ++ ['\n'] ++ t := by
      rw [List.drop_append_of_le_length hinside, List.append_assoc]
      rfl
    have hstart : c.offset + (s.drop c.offset ++ ['\n']).length = s.length + 1 := by
      simp only [List.length_append, List.length_drop, List.length_singleton]
      omega
    rw [hsame, Text.scan_of_blank hdrop hgap, hstart]
  · rw [hpast]

end Above

/-- What a step gives, in a text with that many more characters and lines before it. -/
def shiftOutcome (chars lines : Nat) (o : Except ScriptError (Option Element)) :
    Except ScriptError (Option Element) :=
  o.mapError (ScriptError.shift chars lines)

/-- A cursor on the lower text, and one on the joined text that scans the same from where it is. -/
structure Below (s : Text) (c c' : Cursor) : Prop where
  text : c'.text = s ++ '\n' :: c.text
  scan : c'.scan = shiftScan (s.length + 1) (s.count '\n' + 1) c.scan

namespace Below

variable {s : Text} {c c' : Cursor}

theorem of_offset (htext : c'.text = s ++ '\n' :: c.text) (hl : c.latched = none)
    (hl' : c'.latched = none) (ho : c'.offset = c.offset + (s.length + 1)) : Below s c c' := by
  refine ⟨htext, ?_⟩
  rw [Cursor.scan_of_unlatched hl, Cursor.scan_of_unlatched hl', htext, ho]
  exact Text.scan_below s c.text c.offset

/-- An element takes both cursors to places that are the seam apart. -/
theorem advance_of_scan (h : Below s c c') {p : Parsed} (hscan : c.scan = .ok (some p)) :
    c'.advance.outcome = .ok (some p.element) ∧
      c'.advance.cursor.offset = c.advance.cursor.offset + (s.length + 1) ∧
      Below s c.advance.cursor c'.advance.cursor := by
  have hscan' : c'.scan = .ok (some (p.shift (s.length + 1))) := by rw [h.scan, hscan]; rfl
  have hl := Cursor.unlatched_of_scan hscan
  have hl' := Cursor.unlatched_of_scan hscan'
  rw [Cursor.advance_of_scan hscan, Cursor.advance_of_scan hscan']
  exact ⟨rfl, rfl, of_offset h.text hl hl' rfl⟩

/-- The lower text gives what it gives alone. -/
theorem advance (h : Below s c c') :
    c'.advance.outcome = shiftOutcome (s.length + 1) (s.count '\n' + 1) c.advance.outcome ∧
      Below s c.advance.cursor c'.advance.cursor := by
  have hscan' := h.scan
  cases hscan : c.scan with
  | error e =>
    rw [hscan] at hscan'
    simp only [Cursor.advance, hscan, hscan', shiftScan]
    exact ⟨rfl, h.text, rfl⟩
  | ok found =>
    cases found with
    | none =>
      rw [hscan] at hscan'
      simp only [Cursor.advance, hscan, hscan', shiftScan, Option.map_none]
      exact ⟨rfl, h⟩
    | some p =>
      obtain ⟨houtcome, -, hbelow⟩ := h.advance_of_scan hscan
      refine ⟨?_, hbelow⟩
      rw [houtcome, Cursor.advance_of_scan hscan]
      rfl

theorem ahead (h : Below s c c') (n : Nat) : Below s (c.ahead n) (c'.ahead n) := by
  induction n with
  | zero => exact h
  | succ n ih =>
    rw [Cursor.ahead_succ, Cursor.ahead_succ]
    exact ih.advance.2

theorem offset_advance (h : Below s c c') (ho : c'.offset = c.offset + (s.length + 1)) :
    c'.advance.cursor.offset = c.advance.cursor.offset + (s.length + 1) := by
  have hscan' := h.scan
  cases hscan : c.scan with
  | error e =>
    rw [hscan] at hscan'
    simpa only [Cursor.advance, hscan, hscan', shiftScan] using ho
  | ok found =>
    cases found with
    | none =>
      rw [hscan] at hscan'
      simpa only [Cursor.advance, hscan, hscan', shiftScan, Option.map_none] using ho
    | some p => exact (h.advance_of_scan hscan).2.1

theorem offset_ahead (h : Below s c c') (ho : c'.offset = c.offset + (s.length + 1)) (n : Nat) :
    (c'.ahead n).offset = (c.ahead n).offset + (s.length + 1) := by
  induction n with
  | zero => exact ho
  | succ n ih =>
    rw [Cursor.ahead_succ, Cursor.ahead_succ]
    exact (h.ahead n).offset_advance ih

end Below

/-- A text that opens with a directive or a comment is not exhausted. -/
theorem Text.scan_ne_none {t : Text} (ht : endsBody t = true) : t.scan 0 ≠ .ok none := by
  intro hscan
  cases t with
  | nil => cases ht
  | cons c r =>
    rw [endsBody_cons, decide_eq_true_eq] at ht
    rcases ht with rfl | rfl
    · exact scan_eq_none_iff.1 hscan .directive rfl
    · exact scan_eq_none_iff.1 hscan .comment rfl

/-- **Joining two scripts joins their streams.** Let a cursor on the upper text give some elements
and then nothing, with nothing but blanks left, and let the lower text open with a directive or a
comment. A cursor on the two texts, one below the other, gives the elements of the upper text, each
of which ends where it does alone or, if it reaches the end of the upper text, just past the seam.
From then on each step gives what it gives on the lower text alone, with offsets and lines of errors
shifted by what stands above. It also leaves the cursor at the shifted offset, unless the very first
thing that the lower text gives is an error: then the cursor stays where the upper elements
left it. -/
theorem ahead_joined {s t : Text} {es : List Element} (origin origin' origin'' : Option Text)
    (hs : (Cursor.ofText s origin).Completes es) (ht : endsBody t = true) :
    let upper := Cursor.ofText s origin
    let lower := Cursor.ofText t origin'
    let joined := Cursor.ofText (s ++ '\n' :: t) origin''
    (∀ (n : Nat) (h : n < es.length), (joined.ahead n).advance.outcome = .ok (some es[n])) ∧
      (∀ n ≤ es.length, (joined.ahead n).offset = (upper.ahead n).offset ∨
        (upper.ahead n).offset = s.length ∧ (joined.ahead n).offset = s.length + 1) ∧
      ∀ n,
        (joined.ahead (es.length + n)).advance.outcome =
            shiftOutcome (s.length + 1) (s.count '\n' + 1) (lower.ahead n).advance.outcome ∧
          (joined.ahead (es.length + n + 1)).offset =
            if lower.advance.cursor.failed then (joined.ahead es.length).offset
            else (lower.ahead (n + 1)).offset + (s.length + 1) := by
  intro upper lower joined
  have hstart : Above s t upper joined :=
    { text := rfl
      text' := rfl
      latched := rfl
      latched' := rfl
      inside := Nat.zero_le _
      offset := .inl rfl }
  have habove := hstart.ahead ht hs.elements
  have hlast := habove es.length (Nat.le_refl _)
  have hbelow : Below s lower (joined.ahead es.length) := ⟨hlast.text', hlast.scan hs.blank⟩
  refine ⟨fun n h => ?_, fun n h => (habove n h).offset, fun n => ⟨?_, ?_⟩⟩
  · exact ((habove n (Nat.le_of_lt h)).advance ht (hs.elements n h)).1
  · rw [Cursor.ahead_add]
    exact (hbelow.ahead n).advance.1
  · rw [Nat.add_assoc, Cursor.ahead_add]
    cases hscan : lower.scan with
    | error e =>
      have hfailed : lower.advance.cursor.failed = true := by
        simp only [Cursor.advance, hscan, Cursor.failed, Option.isSome_some]
      have hscan' := hbelow.scan
      rw [hscan] at hscan'
      rw [if_pos hfailed, Cursor.offset_ahead_of_error hscan']
    | ok found =>
      cases found with
      | none => exact absurd hscan (Text.scan_ne_none ht)
      | some p =>
        have hfailed : lower.advance.cursor.failed = false := by
          rw [Cursor.advance_of_scan hscan]
          rfl
        obtain ⟨-, hoffset, hnext⟩ := hbelow.advance_of_scan hscan
        rw [hfailed]
        exact hnext.offset_ahead hoffset n

/-- An open body with blank lines below it, and a lower script that breaks off. -/
def morning : Text := "[Ada] good\nmorning\n\n".toList

def brokenJump : Text := "# note\n@jump(b.vn".toList

theorem ahead_joined_morning :
    (Cursor.ofText morning none).Completes [.dialogue "Ada".toList "good morning".toList] ∧
      endsBody brokenJump = true ∧
      let lower := Cursor.ofText brokenJump none
      let joined := Cursor.ofText (morning ++ '\n' :: brokenJump) none
      joined.advance.outcome = .ok (some (.dialogue "Ada".toList "good morning".toList)) ∧
        ∀ n, (joined.ahead (1 + n)).advance.outcome =
            shiftOutcome 21 4 (lower.ahead n).advance.outcome ∧
          (joined.ahead (1 + n + 1)).offset = (lower.ahead (n + 1)).offset + 21 := by
  have hs : (Cursor.ofText morning none).Completes
      [.dialogue "Ada".toList "good morning".toList] :=
    { elements := by decide
      nothing := by decide
      blank := List.all_eq_true.1 (by decide) }
  have ht : endsBody brokenJump = true := by decide
  have hfailed : (Cursor.ofText brokenJump none).advance.cursor.failed = false := by decide
  obtain ⟨hupper, -, hlower⟩ := ahead_joined none none none hs ht
  rw [hfailed] at hlower
  exact ⟨hs, ht, hupper 0 (by decide), hlower⟩

/-- The offset of a cursor is not shifted by an error that comes first. -/
theorem ahead_joined_stays :
    let s : Text := "@jump(a)".toList
    let t : Text := "@bad".toList
    let joined := Cursor.ofText (s ++ '\n' :: t) none
    (Cursor.ofText s none).Completes [.directive (.jump ['a'] none)] ∧ endsBody t = true ∧
      (joined.ahead 1).advance.outcome =
        shiftOutcome (s.length + 1) (s.count '\n' + 1) (Cursor.ofText t none).advance.outcome ∧
      (joined.ahead 2).offset ≠ ((Cursor.ofText t none).ahead 1).offset + (s.length + 1) := by
  intro s t joined
  have hs : (Cursor.ofText s none).Completes [.directive (.jump ['a'] none)] :=
    { elements := by decide
      nothing := by decide
      blank := List.all_eq_true.1 (by decide) }
  exact ⟨hs, by decide, by decide, by decide⟩

end Playscript
