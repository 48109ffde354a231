import Playscript.Proofs.Words

/-!
# Spacing

Trimming and words, told by where the blanks stand and not by how they are found.

* `flush_trim`, `trim_of_flush`: trimmed texts are the ones without a blank at their ends.
* `wordsIn_iff`: the words of a text are its maximal runs without a blank, in order.
* `wordsIn_unwords`: words with single spaces between them are the words of their join.
-/

namespace Playscript

namespace Text

/-! ## Trimmed texts -/

/-- No blank stands at either end. -/
structure Flush (t : Text) : Prop where
  first : ∀ c, t.head? = some c → isBlank c = false
  last : ∀ c, t.getLast? = some c → isBlank c = false

theorem dropTrailing_append (p : Char → Bool) (t : Text) :
    t = dropTrailing p t ++ (t.reverse.takeWhile p).reverse := by
  rw [dropTrailing, ← List.reverse_append, List.takeWhile_append_dropWhile, List.reverse_reverse]

theorem flush_trim (t : Text) : (trim t).Flush := by
  constructor
  · intro c hc
    -- what is trimmed begins as the text does behind its first blanks
    have hsplit := dropTrailing_append isBlank (t.dropWhile isBlank)
    have hhead : (t.dropWhile isBlank).head? = some c := by
      rw [hsplit, List.head?_append, ← trim, hc]
      rfl
    have hnot := List.head?_dropWhile_not isBlank t
    rw [hhead] at hnot
    exact hnot
  · intro c hc
    rw [trim, dropTrailing, List.getLast?_reverse] at hc
    have hnot := List.head?_dropWhile_not isBlank (t.dropWhile isBlank).reverse
    rw [hc] at hnot
    exact hnot

theorem dropWhile_of_head? {t : Text} (h : ∀ c, t.head? = some c → isBlank c = false) :
    t.dropWhile isBlank = t := by
  cases t with
  | nil => rfl
  | cons c r => rw [List.dropWhile_cons_of_neg (by simp [h c rfl])]

theorem trim_of_flush {t : Text} (h : t.Flush) : trim t = t := by
  have hlast : t.reverse.dropWhile isBlank = t.reverse := by
    apply dropWhile_of_head?
    intro c hc
    rw [List.head?_reverse] at hc
    exact h.last c hc
  rw [trim, dropWhile_of_head? h.first, dropTrailing, hlast, List.reverse_reverse]

/-- What is trimmed off is blank. -/
theorem mem_trim {t : Text} {c : Char} (hc : c ∈ t) (hb : isBlank c = false) : c ∈ trim t := by
  have hfront := List.takeWhile_append_dropWhile (p := isBlank) (l := t)
  have hback := dropTrailing_append isBlank (t.dropWhile isBlank)
  rw [← hfront, hback, ← trim, List.mem_append, List.mem_append] at hc
  rcases hc with hc | hc | hc
  · rw [List.mem_takeWhile_imp hc] at hb
    cases hb
  · exact hc
  · rw [List.mem_takeWhile_imp (List.mem_reverse.1 hc)] at hb
    cases hb

/-! ## Words in their gaps -/

/-- A text is laid out as these words: each is a run without a blank, blanks stand around it, and
nothing else is in the text. A word reaches up to the next blank or the end, so it is maximal. -/
inductive WordsIn : List Text → Text → Prop
  | blank {gap : Text} (hgap : ∀ c ∈ gap, isBlank c = true) : WordsIn [] gap
  | word {gap w rest : Text} {ws : List Text} (hgap : ∀ c ∈ gap, isBlank c = true) (hne : w ≠ [])
      (hw : ∀ c ∈ w, isBlank c = false) (hend : ∀ c, rest.head? = some c → isBlank c = true)
      (hrest : WordsIn ws rest) : WordsIn (w :: ws) (gap ++ w ++ rest)

theorem words_append_of_blank {gap : Text} (h : ∀ c ∈ gap, isBlank c = true) (t : Text) :
    words (gap ++ t) = words t := by
  induction gap with
  | nil => rfl
  | cons c gap ih =>
    obtain ⟨hc, hgap⟩ := List.forall_mem_cons.1 h
    rw [List.cons_append, words_cons_of_blank hc, ih hgap]

theorem words_append_of_word {w rest : Text} (hne : w ≠ []) (hw : ∀ c ∈ w, isBlank c = false)
    (hend : ∀ c, rest.head? = some c → isBlank c = true) :
    words (w ++ rest) = w :: words rest := by
  cases w with
  | nil => exact absurd rfl hne
  | cons c w =>
    obtain ⟨hc, hrun⟩ := List.forall_mem_cons.1 hw
    have hpos : ∀ d ∈ w, (!isBlank d) = true := fun d hd => by simp [hrun d hd]
    have htake : (w ++ rest).takeWhile (!isBlank ·) = w := by
      rw [List.takeWhile_append_of_pos hpos]
      cases rest with
      | nil => simp
      | cons d rest => rw [List.takeWhile_cons_of_neg (by simp [hend d rfl]), List.append_nil]
    have hdrop : (w ++ rest).dropWhile (!isBlank ·) = rest := by
      rw [List.dropWhile_append_of_pos hpos]
      cases rest with
      | nil => rfl
      | cons d rest => rw [List.dropWhile_cons_of_neg (by simp [hend d rfl])]
    rw [List.cons_append, words_cons_of_not_blank hc, htake, hdrop]

theorem words_of_wordsIn {ws : List Text} {t : Text} (h : WordsIn ws t) : words t = ws := by
  induction h with
  | blank hgap =>
    have hwords := words_append_of_blank hgap []
    rw [List.append_nil] at hwords
    exact hwords
  | word hgap hne hw hend _ ih =>
    rw [List.append_assoc, words_append_of_blank hgap, words_append_of_word hne hw hend, ih]

/-- Every text is laid out as its words. The induction is on the length of the text, as a word and
the gap before it are cut off at once. -/
theorem wordsIn_words (t : Text) : WordsIn (words t) t := by
  induction hn : t.length using Nat.strongRecOn generalizing t with
  | ind n ih =>
    have hsplit := List.takeWhile_append_dropWhile (p := isBlank) (l := t)
    have hgap : ∀ c ∈ t.takeWhile isBlank, isBlank c = true := fun c hc => List.mem_takeWhile_imp hc
    have hhead := List.head?_dropWhile_not isBlank t
    generalize t.takeWhile isBlank = gap at *
    generalize t.dropWhile isBlank = tail at *
    subst hsplit
    rw [words_append_of_blank hgap]
    cases tail with
    | nil =>
      rw [List.append_nil]
      exact .blank hgap
    | cons c r =>
      have hc : isBlank c = false := hhead
      have hrun := List.takeWhile_append_dropWhile (p := (!isBlank ·)) (l := r)
      have hlen : (r.dropWhile (!isBlank ·)).length < n := by
        have := (List.dropWhile_sublist (l := r) (!isBlank ·)).length_le
        simp only [List.length_append, List.length_cons] at hn
        omega
      have hw : ∀ d ∈ c :: r.takeWhile (!isBlank ·), isBlank d = false := by
        intro d hd
        rcases List.mem_cons.1 hd with rfl | hd
        · exact hc
        · simpa using List.mem_takeWhile_imp hd
      have hend : ∀ d, (r.dropWhile (!isBlank ·)).head? = some d → isBlank d = true := by
        intro d hd
        have hnot := List.head?_dropWhile_not (!isBlank ·) r
        rw [hd] at hnot
        simpa using hnot
      have hword := WordsIn.word hgap (List.cons_ne_nil _ _) hw hend (ih _ hlen _ rfl)
      rw [words_cons_of_not_blank hc]
      rwa [List.append_assoc, List.cons_append, hrun] at hword

theorem wordsIn_iff {ws : List Text} {t : Text} : WordsIn ws t ↔ words t = ws := by
  constructor
  · exact words_of_wordsIn
  · rintro rfl
    exact wordsIn_words t

theorem ne_nil_of_mem_words {t w : Text} (h : w ∈ words t) : w ≠ [] := by
  simpa using (List.mem_filter.1 h).2

theorem wordsIn_unwords {ws : List Text} {gap : Text} (hgap : ∀ c ∈ gap, isBlank c = true)
    (hws : ∀ w ∈ ws, w ≠ [] ∧ ∀ c ∈ w, isBlank c = false) : WordsIn ws (gap ++ unwords ws) := by
  induction ws generalizing gap with
  | nil =>
    rw [unwords, List.intercalate_nil, List.append_nil]
    exact .blank hgap
  | cons w ws ih =>
    obtain ⟨⟨hne, hw⟩, hrest⟩ := List.forall_mem_cons.1 hws
    cases ws with
    | nil =>
      have hend : WordsIn [] [] := .blank (by simp)
      have hword := WordsIn.word hgap hne hw (by simp) hend
      rw [unwords, List.intercalate_singleton]
      rwa [List.append_nil] at hword
    | cons w' ws =>
      have hspace : ∀ c ∈ [' '], isBlank c = true := List.forall_mem_singleton.2 (by decide)
      have hlater : WordsIn (w' :: ws) ([' '] ++ unwords (w' :: ws)) := ih hspace hrest
      have hend : ∀ c, ([' '] ++ unwords (w' :: ws)).head? = some c → isBlank c = true := by
        intro c hc
        obtain rfl : ' ' = c := Option.some.inj hc
        decide
      have hword := WordsIn.word hgap hne hw hend hlater
      have hjoin : unwords (w :: w' :: ws) = w ++ ([' '] ++ unwords (w' :: ws)) := by
        rw [unwords, List.intercalate_cons_cons, List.append_assoc, unwords]
      rw [hjoin, ← List.append_assoc]
      exact hword

/-- Squeezing leaves a text alone whose words stand one space apart. -/
theorem squeeze_unwords {ws : List Text}
    (hws : ∀ w ∈ ws, w ≠ [] ∧ ∀ c ∈ w, isBlank c = false) :
    squeeze (unwords ws) = unwords ws := by
  have hwords : WordsIn ws ([] ++ unwords ws) := wordsIn_unwords (by simp) hws
  rw [List.nil_append] at hwords
  rw [squeeze, wordsIn_iff.1 hwords]

end Text

end Playscript
