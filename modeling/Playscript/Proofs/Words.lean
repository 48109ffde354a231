import Mathlib.Data.List.TakeWhile
import Playscript.Element.Reading

/-!
# Words, pieces and arguments

How cutting and joining undo each other.

* `splitWhere_intercalate`: pieces without the separator come back from their join.
* `splitArguments_intercalate`: trimmed arguments come back from their join with commas; only the
  single empty argument does not, since blank text holds none.
* `eq_space_of_mem_squeeze`: the only blank of a squeezed text is the space.
* `squeeze_cons_of_blank`, `words_cons_of_not_blank`: the words of a text by its first character.
-/

namespace Playscript

namespace Text

/-! ## Splitting -/

theorem splitWhere_eq_splitOnP (p : Char → Bool) (t : Text) : splitWhere p t = t.splitOnP p := by
  induction t with
  | nil => rfl
  | cons c r ih =>
    rw [List.splitOnP_cons_eq_if_modifyHead, ← ih]
    cases h : p c with
    | true => simp [splitWhere, h]
    | false =>
      obtain ⟨piece, pieces, e, e'⟩ := splitWhere_cons_of_not h r
      rw [e', e]
      rfl

theorem splitWhere_intercalate {sep : Char} {pieces : List Text} (hne : pieces ≠ [])
    (h : ∀ piece ∈ pieces, sep ∉ piece) :
    splitWhere (· == sep) ([sep].intercalate pieces) = pieces := by
  rw [splitWhere_eq_splitOnP]
  exact List.splitOn_intercalate sep h hne

theorem not_of_mem_splitWhere {p : Char → Bool} {t piece : Text} (h : piece ∈ splitWhere p t)
    {c : Char} (hc : c ∈ piece) : p c = false := by
  induction t generalizing piece with
  | nil =>
    have : piece = [] := by simpa [splitWhere] using h
    subst this
    exact absurd hc (by simp)
  | cons d r ih =>
    cases hd : p d with
    | true =>
      rw [splitWhere, if_pos hd] at h
      rcases List.mem_cons.1 h with rfl | h
      · exact absurd hc (by simp)
      · exact ih h hc
    | false =>
      obtain ⟨first, pieces, e, e'⟩ := splitWhere_cons_of_not hd r
      rw [e'] at h
      rw [e] at ih
      rcases List.mem_cons.1 h with rfl | h
      · rcases List.mem_cons.1 hc with rfl | hc
        · exact hd
        · exact ih (List.mem_cons_self ..) hc
      · exact ih (List.mem_cons_of_mem _ h) hc

/-! ## Trimming -/

theorem trim_of_blank {t : Text} (h : ∀ c ∈ t, isBlank c = true) : trim t = [] := by
  have : t.dropWhile isBlank = [] := List.dropWhile_eq_nil_iff.2 h
  rw [trim, this]
  rfl

/-- A trimmed text is empty or shows something. -/
theorem exists_not_blank_of_trim {t : Text} (ht : trim t = t) (hne : t ≠ []) :
    ∃ c ∈ t, isBlank c = false := by
  by_contra hall
  apply hne
  rw [← ht]
  apply trim_of_blank
  intro c hc
  cases hb : isBlank c with
  | true => rfl
  | false => exact absurd ⟨c, hc, hb⟩ hall

/-! ## Words -/

theorem words_cons_of_blank {c : Char} (h : isBlank c = true) (t : Text) :
    words (c :: t) = words t := by
  simp [words, splitWhere, h]

/-- The first word of a text that starts with no blank, and the words after it. -/
theorem words_cons_of_not_blank (h : isBlank c = false) (r : Text) :
    words (c :: r) = (c :: r.takeWhile (!isBlank ·)) :: words (r.dropWhile (!isBlank ·)) := by
  induction r generalizing c with
  | nil => simp [words, splitWhere, h]
  | cons d r ih =>
    cases hd : isBlank d with
    | true => simp [words, splitWhere, h, hd]
    | false =>
      obtain ⟨piece, pieces, hpieces, hsplit⟩ := splitWhere_cons_of_not h (d :: r)
      have hnext := ih hd
      rw [words, hpieces] at hnext
      rw [words, hsplit, List.takeWhile_cons_of_pos (by simp [hd]),
        List.dropWhile_cons_of_pos (by simp [hd])]
      have hpiece : piece ≠ [] := by
        rintro rfl
        rw [splitWhere, if_neg (by simp [hd])] at hpieces
        split at hpieces <;> cases hpieces
      rw [List.filter_cons_of_pos (by simpa using hpiece)] at hnext
      rw [List.filter_cons_of_pos (by simp), ← (List.cons.inj hnext).1, (List.cons.inj hnext).2]

theorem squeeze_cons_of_blank {c : Char} (h : isBlank c = true) (t : Text) :
    squeeze (c :: t) = squeeze t := by
  rw [squeeze, words_cons_of_blank h, squeeze]

theorem not_blank_of_mem_words {t w : Text} (h : w ∈ words t) {c : Char} (hc : c ∈ w) :
    isBlank c = false :=
  not_of_mem_splitWhere (List.mem_filter.1 h).1 hc

theorem mem_intercalate {sep : Text} {pieces : List Text} {c : Char}
    (h : c ∈ sep.intercalate pieces) : c ∈ sep ∨ ∃ piece ∈ pieces, c ∈ piece := by
  induction pieces with
  | nil => exact absurd h (by simp)
  | cons piece rest ih =>
    cases rest with
    | nil =>
      rw [List.intercalate_singleton] at h
      exact .inr ⟨piece, List.mem_cons_self .., h⟩
    | cons next rest =>
      rw [List.intercalate_cons_cons, List.mem_append, List.mem_append] at h
      rcases h with (h | h) | h
      · exact .inr ⟨piece, List.mem_cons_self .., h⟩
      · exact .inl h
      · rcases ih h with hs | ⟨p, hp, hcp⟩
        · exact .inl hs
        · exact .inr ⟨p, List.mem_cons_of_mem _ hp, hcp⟩

theorem eq_space_of_mem_squeeze {t : Text} {c : Char} (h : c ∈ squeeze t)
    (hb : isBlank c = true) : c = ' ' := by
  rcases mem_intercalate h with hs | ⟨w, hw, hc⟩
  · simpa using hs
  · rw [not_blank_of_mem_words hw hc] at hb
    cases hb

end Text

/-! ## Arguments -/

/-- The join of two pieces or more holds a separator. -/
theorem mem_intercalate_cons_cons (sep : Char) (a b : Text) (rest : List Text) :
    sep ∈ [sep].intercalate (a :: b :: rest) := by
  rw [List.intercalate_cons_cons]
  simp

/-- A join with commas is blank only when it joins nothing, or nothing but one empty argument. -/
theorem not_all_blank_intercalate {args : List Text} (hne : args ≠ []) (hone : args ≠ [[]])
    (ht : ∀ a ∈ args, Text.trim a = a) : ([','].intercalate args).all Text.isBlank = false := by
  obtain ⟨c, hc, hb⟩ : ∃ c ∈ [','].intercalate args, Text.isBlank c = false := by
    match args, hne with
    | [a], _ =>
      rw [List.intercalate_singleton]
      refine Text.exists_not_blank_of_trim (ht a (by simp)) ?_
      rintro rfl
      exact hone rfl
    | a :: b :: rest, _ => exact ⟨',', mem_intercalate_cons_cons ',' a b rest, by decide⟩
  rw [List.all_eq_false]
  exact ⟨c, hc, by simp [hb]⟩

theorem splitArguments_intercalate {args : List Text} (hone : args ≠ [[]])
    (ht : ∀ a ∈ args, Text.trim a = a) (hc : ∀ a ∈ args, ',' ∉ a) :
    splitArguments ([','].intercalate args) = args := by
  by_cases hne : args = []
  · subst hne
    rfl
  · rw [splitArguments, not_all_blank_intercalate hne hone ht, if_neg (by simp),
      Text.splitWhere_intercalate hne hc]
    calc
      args.map Text.trim = args.map id := List.map_congr_left ht
      _ = args := List.map_id args

end Playscript
