import Playscript.Proofs.Stream
import Playscript.Proofs.Words
import Playscript.CommandLine

/-!
# Lines of output

An element is shown on one line, whatever its script was like: names and arguments stand on one line
there, and the words of a body are joined by spaces. An error that ends a script has a place in it,
which is shown the same way whether a script is played or checked.

* `oneLine_describe`: an element that is read off a text is shown on one line.
* `oneLine_elementLine`: so is the position with it.
* `place_of_error`: the error at the end of a stream has a place.
* `errorPlace_eq`, `errorLine_eq`: how the place of an error is shown.
-/

namespace Playscript

namespace Text

/-- A text without line breaks. -/
def OneLine (t : Text) : Prop := ∀ c ∈ t, isLineBreak c = false

instance (t : Text) : Decidable t.OneLine :=
  decidable_of_iff (t.all fun c => !isLineBreak c) (by simp [OneLine])

theorem oneLine_append {s t : Text} : OneLine (s ++ t) ↔ OneLine s ∧ OneLine t :=
  List.forall_mem_append

theorem oneLine_cons {c : Char} {t : Text} :
    OneLine (c :: t) ↔ isLineBreak c = false ∧ OneLine t :=
  List.forall_mem_cons

theorem OneLine.mono {s t : Text} (h : t.OneLine) (hs : ∀ c ∈ s, c ∈ t) : s.OneLine :=
  fun c hc => h c (hs c hc)

theorem mem_of_mem_trim {t : Text} {c : Char} (h : c ∈ trim t) : c ∈ t := by
  rw [trim, dropTrailing, List.mem_reverse] at h
  have hmid := (List.dropWhile_sublist _).subset h
  exact (List.dropWhile_sublist _).subset (List.mem_reverse.1 hmid)

theorem mem_of_mem_splitWhere {p : Char → Bool} {t piece : Text} {c : Char}
    (h : piece ∈ splitWhere p t) (hc : c ∈ piece) : c ∈ t := by
  induction t generalizing piece with
  | nil =>
    obtain rfl : piece = [] := List.mem_singleton.1 h
    exact hc
  | cons d r ih =>
    cases hd : p d with
    | true =>
      rw [splitWhere, if_pos hd] at h
      rcases List.mem_cons.1 h with rfl | h
      · cases hc
      · exact List.mem_cons_of_mem _ (ih h hc)
    | false =>
      obtain ⟨first, others, hr, hsplit⟩ := splitWhere_cons_of_not hd r
      rw [hsplit] at h
      rw [hr] at ih
      rcases List.mem_cons.1 h with rfl | h
      · rcases List.mem_cons.1 hc with rfl | hc
        · exact List.mem_cons_self ..
        · exact List.mem_cons_of_mem _ (ih (List.mem_cons_self ..) hc)
      · exact List.mem_cons_of_mem _ (ih (List.mem_cons_of_mem _ h) hc)

/-- A line break is blank, and the only blank in a squeezed text is the space. -/
theorem oneLine_squeeze (t : Text) : (squeeze t).OneLine := by
  intro c hc
  by_contra hbreak
  have hblank : isBlank c = true := by
    simp only [isLineBreak, Bool.not_eq_false, Bool.or_eq_true, beq_iff_eq] at hbreak
    rcases hbreak with rfl | rfl <;> decide
  obtain rfl := eq_space_of_mem_squeeze hc hblank
  exact hbreak (by decide)

theorem oneLine_ofNat (n : Nat) : (ofNat n).OneLine := by
  intro c hc
  have hdigit := Nat.isDigit_of_mem_toDigits (by omega) (by omega) hc
  by_contra hbreak
  simp only [isLineBreak, Bool.not_eq_false, Bool.or_eq_true, beq_iff_eq] at hbreak
  rcases hbreak with rfl | rfl <;> exact absurd hdigit (by decide)

end Text

open Text (OneLine oneLine_append oneLine_cons)

theorem oneLine_restOfLine (t : Text) : (restOfLine t).OneLine := by
  intro c hc
  simpa using List.mem_takeWhile_imp hc

/-! ## Elements -/

theorem oneLine_splitArguments {raw : Text} (h : raw.OneLine) :
    ∀ arg ∈ splitArguments raw, OneLine arg := by
  intro arg harg
  rw [splitArguments] at harg
  split at harg
  · cases harg
  · obtain ⟨piece, hpiece, rfl⟩ := List.mem_map.1 harg
    exact h.mono fun c hc => Text.mem_of_mem_splitWhere hpiece (Text.mem_of_mem_trim hc)

theorem oneLine_jump {path : Text} (h : path.OneLine) :
    (Directive.jump path none).describe.OneLine := by
  show OneLine ("@jump(".toList ++ path ++ [')'])
  rw [oneLine_append, oneLine_append]
  exact ⟨⟨by decide, h⟩, by decide⟩

theorem oneLine_choice {a b path : Text} (ha : a.OneLine) (hb : b.OneLine) (h : path.OneLine) :
    (Directive.jump path (some (a, b))).describe.OneLine := by
  show OneLine
    ("@jump(".toList ++ a ++ " | ".toList ++ b ++ " -> ".toList ++ path ++ [')'])
  simp only [oneLine_append]
  exact ⟨⟨⟨⟨⟨⟨by decide, ha⟩, by decide⟩, hb⟩, by decide⟩, h⟩, by decide⟩

theorem oneLine_loadBackground {path : Text} (h : path.OneLine) :
    (Directive.loadBackground path).describe.OneLine := by
  show OneLine ("@loadbg(".toList ++ path ++ [')'])
  rw [oneLine_append, oneLine_append]
  exact ⟨⟨by decide, h⟩, by decide⟩

theorem oneLine_dialogue {name body : Text} (hn : name.OneLine) (hb : body.OneLine) :
    (Element.dialogue name body).describe.OneLine := by
  show OneLine ('[' :: name ++ ']' :: ' ' :: body)
  rw [oneLine_append, oneLine_cons, oneLine_cons, oneLine_cons]
  exact ⟨⟨by decide, hn⟩, by decide, by decide, hb⟩

theorem oneLine_comment : Element.comment.describe.OneLine := by
  show OneLine "# comment".toList
  decide

/-- A directive is made of its arguments. -/
theorem oneLine_kind {kind : DirectiveKind} {args : List Text} {r : Resolved}
    (h : kind.resolve args = .ok r) (hargs : ∀ arg ∈ args, OneLine arg) :
    r.directive.describe.OneLine := by
  cases kind with
  | jump =>
    match args with
    | [path] =>
      obtain rfl := Except.ok.inj h
      exact oneLine_jump (hargs path (by simp))
    | [a, b, path] =>
      obtain rfl := Except.ok.inj h
      exact oneLine_choice (hargs a (by simp)) (hargs b (by simp)) (hargs path (by simp))
    | [] => cases h
    | [_, _] => cases h
    | _ :: _ :: _ :: _ :: _ => cases h
  | loadBackground =>
    match args with
    | [] => cases h
    | path :: rest =>
      obtain rfl := Except.ok.inj h
      exact oneLine_loadBackground (hargs path (by simp))

theorem exists_kind {name : Text} {args : List Text} {r : Resolved}
    (h : Directive.resolve name args = .ok r) :
    ∃ kind : DirectiveKind, kind.resolve args = .ok r := by
  rcases Directive.resolve_cases name args with ⟨kind, hkind⟩ | hunknown
  · exact ⟨kind, hkind.symm.trans h⟩
  · rw [hunknown] at h
    cases h

/-- A dialogue names its speaker by a part of one line, and its body is squeezed. -/
theorem element_readDialogue {here : Text} {r : Reading} (h : readDialogue here = .ok r) :
    ∃ name body : Text, (∀ c ∈ name, c ∈ restOfLine (here.drop 1)) ∧
      r.element = .dialogue name body.squeeze := by
  simp only [readDialogue] at h
  split at h
  · cases h
    refine ⟨_, _, fun c hc => ?_, rfl⟩
    exact (List.takeWhile_sublist (· ≠ ']')).subset (Text.mem_of_mem_trim hc)
  · cases h

/-- A directive takes its arguments from a part of one line. -/
theorem element_readDirective {here : Text} {r : Reading} (h : readDirective here = .ok r) :
    ∃ (inner raw name : Text) (resolved : Resolved), (∀ c ∈ raw, c ∈ restOfLine inner) ∧
      Directive.resolve name (splitArguments raw) = .ok resolved ∧
      r.element = .directive resolved.directive := by
  simp only [readDirective] at h
  split at h
  · cases h
  · split at h
    · rename_i inner _
      split at h
      · split at h
        · rename_i resolved hresolve
          cases h
          refine ⟨inner, _, _, resolved, fun c hc => ?_, hresolve, rfl⟩
          exact (List.takeWhile_sublist _).subset hc
        · cases h
      · cases h
    · cases h

/-- An element that is read off a text is shown on one line. -/
theorem oneLine_describe {source : Text} {offset : Nat} {p : Parsed}
    (h : source.scan offset = .ok (some p)) : p.element.describe.OneLine := by
  obtain ⟨mark, r, -, hread, rfl⟩ := Text.scan_eq_some_iff.1 h
  cases mark with
  | dialogue =>
    obtain ⟨name, body, hname, helement⟩ := element_readDialogue hread
    show r.element.describe.OneLine
    rw [helement]
    exact oneLine_dialogue ((oneLine_restOfLine _).mono hname) (Text.oneLine_squeeze body)
  | directive =>
    obtain ⟨inner, raw, name, resolved, hraw, hresolve, helement⟩ := element_readDirective hread
    obtain ⟨kind, hkind⟩ := exists_kind hresolve
    show r.element.describe.OneLine
    rw [helement]
    exact oneLine_kind hkind (oneLine_splitArguments ((oneLine_restOfLine inner).mono hraw))
  | comment =>
    cases hread
    exact oneLine_comment

/-! ## Streams -/

namespace Text

variable {source : Text}

/-- Each element of a stream is found by a scan. -/
theorem scan_of_mem_elements {p : Parsed} {ps : List Parsed} {offset : Nat}
    (h : (source.streamFrom offset).elements = ps) (hp : p ∈ ps) :
    ∃ start, source.scan start = .ok (some p) := by
  induction ps generalizing offset with
  | nil => cases hp
  | cons q rest ih =>
    obtain ⟨hscan, hrest, -⟩ := scan_of_elements_cons h
    rcases List.mem_cons.1 hp with rfl | hp
    · exact ⟨offset, hscan⟩
    · exact ih hrest hp

/-- The error that a stream ends with is found by a scan. -/
theorem scan_of_error {error : ScriptError} {ps : List Parsed} {offset : Nat}
    (h : (source.streamFrom offset).elements = ps)
    (he : (source.streamFrom offset).error = some error) :
    ∃ start, source.scan start = .error error := by
  induction ps generalizing offset with
  | nil =>
    refine ⟨offset, ?_⟩
    rw [scan_of_elements_nil h, Stream.ending, he]
  | cons q rest ih =>
    obtain ⟨-, hrest, herror⟩ := scan_of_elements_cons h
    exact ih hrest (herror.trans he)

end Text

/-- The error lies at the place; lines and columns count from one. -/
structure ScriptError.LiesAt (e : ScriptError) (place : Position) : Prop where
  line : e.line = some place.line
  column : e.column = some place.column
  line_pos : 1 ≤ place.line
  column_pos : 1 ≤ place.column

theorem ScriptError.liesAt_locate (e : ScriptError) (source : Text) (offset : Int) :
    (e.locate source offset).LiesAt (source.positionOf offset) :=
  ⟨rfl, rfl, Nat.le_add_left .., Nat.le_add_left ..⟩

/-- The error that a stream ends with has a place. -/
theorem place_of_error {source : Text} {offset : Nat} {error : ScriptError}
    (h : (source.streamFrom offset).error = some error) : ∃ place, error.LiesAt place := by
  obtain ⟨start, hscan⟩ := Text.scan_of_error rfl h
  obtain ⟨mark, defect, -, -, rfl⟩ := Text.scan_eq_error_iff.1 hscan
  cases defect with
  | missing what reach => exact ⟨_, ScriptError.liesAt_locate ..⟩
  | refused fault => exact ⟨_, ScriptError.liesAt_locate ..⟩

namespace CommandLine

/-- The line that a run prints for an element: where it ends, and the element. -/
def elementLine (source : Text) (p : Parsed) : Text :=
  positionText (source.positionOf p.stop) ++ '\t' :: p.element.describe

theorem oneLine_positionText (p : Position) : (positionText p).OneLine := by
  rw [positionText, oneLine_append, oneLine_cons]
  exact ⟨Text.oneLine_ofNat _, by decide, Text.oneLine_ofNat _⟩

theorem oneLine_elementLine {source : Text} {offset : Nat} {p : Parsed}
    (h : p ∈ (source.streamFrom offset).elements) : (elementLine source p).OneLine := by
  obtain ⟨start, hscan⟩ := Text.scan_of_mem_elements rfl h
  rw [elementLine, oneLine_append, oneLine_cons]
  exact ⟨oneLine_positionText _, by decide, oneLine_describe hscan⟩

section
variable {e : ScriptError} {place : Position}

theorem filter_line (h : e.LiesAt place) : e.line.filter (· ≠ 0) = some (place.line : Int) := by
  rw [h.line]
  have := h.line_pos
  exact Option.filter_eq_some_iff.2 ⟨rfl, by simp; omega⟩

theorem filter_column (h : e.LiesAt place) :
    e.column.filter (· ≠ 0) = some (place.column : Int) := by
  rw [h.column]
  have := h.column_pos
  exact Option.filter_eq_some_iff.2 ⟨rfl, by simp; omega⟩

theorem errorPlace_eq (h : e.LiesAt place) : errorPlace e = positionText place := by
  rw [errorPlace, filter_line h, h.column]
  rfl

theorem placeText_eq (h : e.LiesAt place) :
    e.placeText = " (line ".toList ++ Text.ofNat place.line ++ ", column ".toList
      ++ Text.ofNat place.column ++ [')'] := by
  unfold ScriptError.placeText
  rw [filter_line h, filter_column h]
  rfl

/-- An error is printed with its message and its place. -/
theorem errorLine_eq (h : e.LiesAt place) :
    errorLine e = "error: ".toList ++ (e.message ++ (" (line ".toList ++ Text.ofNat place.line
      ++ ", column ".toList ++ Text.ofNat place.column ++ [')']) ++ e.contextText) := by
  rw [← placeText_eq h]
  rfl

end

end CommandLine

end Playscript
