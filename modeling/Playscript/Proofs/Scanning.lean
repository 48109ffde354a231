import Mathlib.Data.List.TakeWhile
import Playscript.Cursor

/-!
# Scanning

What a scan does, said once: it passes over blanks to the next start, and the character there
decides. All later facts about scans are read off these statements.

* `scan_eq_none_iff`, `scan_eq_some_iff`, `scan_eq_error_iff`: the three answers of a scan.
* `blank_of_mem_extract`, `not_blank_of_getElem?_nextStart`: blanks lie before the next start and
  none is at it.
* `mark_of_read`: an element is of the kind of the mark it was read at.
-/

namespace Playscript

/-- The mark that an element opens with. -/
def Element.mark : Element → Mark
  | dialogue .. => .dialogue
  | directive _ => .directive
  | comment => .comment

namespace Text

/-! ## The next start -/

/-- The first offset, from `offset` on, that holds no blank. -/
def nextStart (source : Text) (offset : Nat) : Nat :=
  offset + ((source.drop offset).takeWhile isBlank).length

theorem drop_takeWhile (p : Char → Bool) (t : Text) :
    t.drop (t.takeWhile p).length = t.dropWhile p := by
  induction t with
  | nil => rfl
  | cons c r ih => cases hp : p c <;> simp [hp, ih]

variable (source : Text) (offset : Nat)

theorem le_nextStart : offset ≤ source.nextStart offset := Nat.le_add_right ..

theorem drop_nextStart :
    source.drop (source.nextStart offset) = (source.drop offset).dropWhile isBlank := by
  rw [nextStart, ← List.drop_drop, drop_takeWhile]

theorem takeWhile_append_drop_nextStart :
    (source.drop offset).takeWhile isBlank ++ source.drop (source.nextStart offset)
      = source.drop offset := by
  rw [drop_nextStart, List.takeWhile_append_dropWhile]

theorem extract_nextStart :
    source.extract offset (source.nextStart offset) = (source.drop offset).takeWhile isBlank := by
  have hl : source.nextStart offset - offset = ((source.drop offset).takeWhile isBlank).length := by
    rw [nextStart]
    omega
  rw [List.extract_eq_take_drop, hl]
  exact (List.prefix_iff_eq_take.1 (List.takeWhile_prefix _)).symm

variable {source offset}

theorem blank_of_mem_extract {c : Char}
    (h : c ∈ source.extract offset (source.nextStart offset)) : isBlank c = true := by
  rw [extract_nextStart] at h
  exact List.mem_takeWhile_imp h

theorem not_blank_of_getElem?_nextStart {c : Char}
    (h : source[source.nextStart offset]? = some c) : isBlank c = false := by
  rw [← List.head?_drop, drop_nextStart] at h
  have := List.head?_dropWhile_not isBlank (source.drop offset)
  rw [h] at this
  exact this

/-! ## The three answers -/

theorem drop_of_getElem? {t : Text} {n : Nat} {c : Char} (h : t[n]? = some c) :
    t.drop n = c :: t.drop (n + 1) := by
  obtain ⟨hlt, rfl⟩ := List.getElem?_eq_some_iff.1 h
  exact List.drop_eq_getElem_cons hlt

theorem scan_eq :
    source.scan offset =
      match source[source.nextStart offset]?.bind Mark.ofChar? with
      | none => .ok none
      | some mark =>
        match mark.read (source.drop (source.nextStart offset)) with
        | .ok r => .ok (some (r.startingAt (source.nextStart offset)))
        | .error d => .error (d.toError source (source.nextStart offset)) := by
  simp only [scan, List.drop_drop, List.head?_drop]
  rfl

/-- A scan passes over blanks. -/
theorem scan_of_blank {gap rest : Text}
    (h : source.drop offset = gap ++ rest) (hgap : ∀ c ∈ gap, isBlank c = true) :
    source.scan offset = source.scan (offset + gap.length) := by
  have hrest : source.drop (offset + gap.length) = rest := by
    rw [← List.drop_drop, h, List.drop_left]
  have hstart : source.nextStart offset = source.nextStart (offset + gap.length) := by
    rw [nextStart, nextStart, h, hrest, List.takeWhile_append_of_pos hgap, List.length_append]
    omega
  rw [scan_eq, scan_eq, hstart]

/-- The character at the next start is a mark just when the scan has something to read. -/
theorem bind_ofChar?_eq_some_iff {mark : Mark} :
    source[source.nextStart offset]?.bind Mark.ofChar? = some mark ↔
      source[source.nextStart offset]? = some mark.char := by
  rw [Option.bind_eq_some_iff]
  constructor
  · rintro ⟨c, hc, hm⟩
    rw [hc, (Mark.ofChar?_eq_some_iff c mark).1 hm]
  · intro h
    exact ⟨mark.char, h, (Mark.ofChar?_eq_some_iff _ mark).2 rfl⟩

theorem scan_eq_none_iff :
    source.scan offset = .ok none ↔
      ∀ mark : Mark, source[source.nextStart offset]? ≠ some mark.char := by
  rw [scan_eq]
  constructor
  · intro h mark hm
    rw [bind_ofChar?_eq_some_iff.2 hm] at h
    cases hr : mark.read (source.drop (source.nextStart offset)) with
    | ok r => simp [hr] at h
    | error d => simp [hr] at h
  · intro h
    cases hm : source[source.nextStart offset]?.bind Mark.ofChar? with
    | none => rfl
    | some mark => exact absurd (bind_ofChar?_eq_some_iff.1 hm) (h mark)

theorem scan_eq_some_iff {p : Parsed} :
    source.scan offset = .ok (some p) ↔
      ∃ mark r, source[source.nextStart offset]? = some (Mark.char mark) ∧
        mark.read (source.drop (source.nextStart offset)) = .ok r ∧
        p = r.startingAt (source.nextStart offset) := by
  rw [scan_eq]
  constructor
  · intro h
    cases hm : source[source.nextStart offset]?.bind Mark.ofChar? with
    | none => simp [hm] at h
    | some mark =>
      cases hr : mark.read (source.drop (source.nextStart offset)) with
      | error d => simp [hm, hr] at h
      | ok r =>
        refine ⟨mark, r, bind_ofChar?_eq_some_iff.1 hm, hr, ?_⟩
        simpa [hm, hr, eq_comm] using h
  · rintro ⟨mark, r, hm, hr, rfl⟩
    rw [bind_ofChar?_eq_some_iff.2 hm]
    simp [hr]

theorem scan_eq_error_iff {e : ScriptError} :
    source.scan offset = .error e ↔
      ∃ mark d, source[source.nextStart offset]? = some (Mark.char mark) ∧
        mark.read (source.drop (source.nextStart offset)) = .error d ∧
        e = d.toError source (source.nextStart offset) := by
  rw [scan_eq]
  constructor
  · intro h
    cases hm : source[source.nextStart offset]?.bind Mark.ofChar? with
    | none => simp [hm] at h
    | some mark =>
      cases hr : mark.read (source.drop (source.nextStart offset)) with
      | ok r => simp [hm, hr] at h
      | error d =>
        refine ⟨mark, d, bind_ofChar?_eq_some_iff.1 hm, hr, ?_⟩
        simpa [hm, hr, eq_comm] using h
  · rintro ⟨mark, d, hm, hr, rfl⟩
    rw [bind_ofChar?_eq_some_iff.2 hm]
    simp [hr]

end Text

/-! ## Kinds -/

/-- A directive is resolved as one of the kinds, or its name is not known. -/
theorem Directive.resolve_cases (name : Text) (args : List Text) :
    (∃ kind : DirectiveKind, Directive.resolve name args = kind.resolve args) ∨
      Directive.resolve name args = .error (.unknownDirective name) := by
  unfold Directive.resolve
  split
  · rename_i answer hanswer
    obtain ⟨kind, -, hkind⟩ := List.exists_of_findSome?_eq_some hanswer
    unfold DirectiveKind.answer? at hkind
    split at hkind
    · exact .inl ⟨kind, (Option.some.inj hkind).symm⟩
    · cases hkind
  · exact .inr rfl

theorem Mark.mark_of_read {mark : Mark} {here : Text} {r : Reading} (h : mark.read here = .ok r) :
    r.element.mark = mark := by
  cases mark with
  | dialogue =>
    simp only [read, readDialogue] at h
    split at h
    · cases h
      rfl
    · cases h
  | directive =>
    simp only [read, readDirective] at h
    split at h
    · cases h
    · split at h
      · split at h
        · split at h
          · cases h
            rfl
          · cases h
        · cases h
      · cases h
  | comment =>
    cases h
    rfl

/-- An element that a scan finds opens with its mark at the next start and ends past it. -/
theorem Text.getElem?_nextStart_of_scan {source : Text} {offset : Nat} {p : Parsed}
    (h : source.scan offset = .ok (some p)) :
    source[source.nextStart offset]? = some p.element.mark.char ∧
      source.nextStart offset < p.stop ∧ p.stop ≤ source.length := by
  have hle := (lt_stop_of_scan h).2
  obtain ⟨mark, r, hm, hr, rfl⟩ := scan_eq_some_iff.1 h
  refine ⟨?_, ?_, hle⟩
  · rw [hm, Reading.startingAt, Mark.mark_of_read hr]
  · rw [drop_of_getElem? hm] at hr
    have := (Mark.size_read hr).1
    simp only [Reading.startingAt]
    omega

end Playscript
