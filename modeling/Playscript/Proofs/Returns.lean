import Playscript.Proofs.Words

/-!
# Carriage returns

Texts in which a carriage return is only ever part of a line end. Without its carriage returns such
a text has the same words on the same lines, though its lines may be shorter.

* `Paired`, `Linked`: carriage returns stand before line feeds, in a text and in parts of it.
* `withFeeds_eq_bare`, `unifyBreaks_eq_bare`: three ways to take the carriage returns out.
* `takeWhile_bare_of_pos`, `takeWhile_bare_of_neg`: runs of characters with and without them.
* `squeeze_bare`: the words are the same.
-/

namespace Playscript

namespace Text

/-- The text without its carriage returns. -/
def bare (t : Text) : Text := t.filter (· ≠ '\r')

/-- Every line end that has a carriage return is a line feed alone. -/
def withFeeds : Text → Text
  | [] => []
  | '\r' :: '\n' :: r => '\n' :: withFeeds r
  | c :: r => c :: withFeeds r

/-- Every carriage return stands right before a line feed. -/
def Paired (t : Text) : Prop := ∀ i, t[i]? = some '\r' → t[i + 1]? = some '\n'

/-- What comes after a carriage return, if anything, is a line feed. -/
def Linked (t : Text) : Prop := ∀ i, t[i]? = some '\r' → ∀ c, t[i + 1]? = some c → c = '\n'

variable {t a b r : Text} {c : Char} {p : Char → Bool}

theorem paired_iff_lt :
    Paired t ↔ ∀ i < t.length, t[i]? = some '\r' → t[i + 1]? = some '\n' := by
  refine ⟨fun h i _ => h i, fun h i hi => h i ?_ hi⟩
  exact (List.getElem?_eq_some_iff.1 hi).1

instance (t : Text) : Decidable (Paired t) := decidable_of_iff' _ paired_iff_lt

theorem Paired.linked (h : Paired t) : Linked t := by
  intro i hi c hc
  rw [h i hi] at hc
  exact (Option.some.inj hc).symm

/-! ## Parts of a text -/

theorem Linked.left (h : Linked (a ++ b)) : Linked a := by
  intro i hi c hc
  have hlt := (List.getElem?_eq_some_iff.1 hc).1
  refine h i ?_ c ?_
  · rwa [List.getElem?_append_left (by omega)]
  · rwa [List.getElem?_append_left hlt]

theorem Linked.right (h : Linked (a ++ b)) : Linked b := by
  intro i hi c hc
  refine h (a.length + i) ?_ c ?_
  · rwa [List.getElem?_append_right (by omega), Nat.add_sub_cancel_left]
  · rwa [List.getElem?_append_right (by omega), Nat.add_assoc, Nat.add_sub_cancel_left]

theorem Paired.right (h : Paired (a ++ b)) : Paired b := by
  intro i hi
  have hnext := h (a.length + i) (by
    rwa [List.getElem?_append_right (by omega), Nat.add_sub_cancel_left])
  rwa [List.getElem?_append_right (by omega), Nat.add_assoc, Nat.add_sub_cancel_left] at hnext

theorem Paired.append (ha : Paired a) (hb : Paired b) : Paired (a ++ b) := by
  intro i hi
  by_cases hlt : i < a.length
  · rw [List.getElem?_append_left hlt] at hi
    have hnext := ha i hi
    have hlt' := (List.getElem?_eq_some_iff.1 hnext).1
    rwa [List.getElem?_append_left hlt']
  · rw [List.getElem?_append_right (by omega)] at hi
    rw [List.getElem?_append_right (by omega), Nat.sub_add_comm (by omega)]
    exact hb _ hi

/-- A part of a text that is not followed by a line feed leaves no carriage return behind. -/
theorem Paired.left (h : Paired (a ++ b)) (hb : b.head? ≠ some '\n') : Paired a := by
  intro i hi
  have hlt := (List.getElem?_eq_some_iff.1 hi).1
  have hnext := h i (by rwa [List.getElem?_append_left hlt])
  by_cases hlast : i + 1 < a.length
  · rwa [List.getElem?_append_left hlast] at hnext
  · rw [List.getElem?_append_right (by omega), show i + 1 - a.length = 0 by omega,
      ← List.head?_eq_getElem?] at hnext
    exact absurd hnext hb

theorem Linked.tail (h : Linked (c :: r)) : Linked r := Linked.right (a := [c]) h

theorem Paired.tail (h : Paired (c :: r)) : Paired r := Paired.right (a := [c]) h

/-- Only a line feed comes after a carriage return. -/
theorem Linked.head (h : Linked ('\r' :: r)) : r = [] ∨ ∃ after, r = '\n' :: after := by
  cases r with
  | nil => exact .inl rfl
  | cons d after =>
    obtain rfl : d = '\n' := h 0 rfl d rfl
    exact .inr ⟨after, rfl⟩

theorem Paired.head (h : Paired ('\r' :: r)) : ∃ after, r = '\n' :: after := by
  obtain ⟨hne, heq⟩ := List.getElem?_eq_some_iff.1 (h 0 rfl)
  rcases h.linked.head with rfl | hfeed
  · exact absurd hne (by simp)
  · exact hfeed

theorem paired_of_not_mem (h : '\r' ∉ t) : Paired t :=
  fun _ hi => absurd (List.mem_of_getElem? hi) h

/-- A part of a text that ends in a line feed leaves no carriage return behind. -/
theorem Linked.paired_feed (h : Linked (a ++ ['\n'])) : Paired (a ++ ['\n']) := by
  intro i hi
  have hlt := (List.getElem?_eq_some_iff.1 hi).1
  have hne : i ≠ a.length := by
    rintro rfl
    simp at hi
  obtain ⟨c, hc⟩ : ∃ c, (a ++ ['\n'])[i + 1]? = some c := by
    rw [List.length_append, List.length_singleton] at hlt
    exact ⟨_, List.getElem?_eq_getElem (by simp; omega)⟩
  rw [hc, h i hi c hc]

/-- On a line of its own a carriage return can only come last. -/
theorem Linked.cases_of_no_feed (h : Linked t) (hn : '\n' ∉ t) :
    '\r' ∉ t ∨ ∃ line, t = line ++ ['\r'] ∧ '\r' ∉ line := by
  induction t with
  | nil => exact .inl (by simp)
  | cons c r ih =>
    have hr : '\n' ∉ r := fun hm => hn (List.mem_cons_of_mem _ hm)
    by_cases hc : c = '\r'
    · subst hc
      rcases h.head with rfl | ⟨after, rfl⟩
      · exact .inr ⟨[], rfl, by simp⟩
      · exact absurd (List.mem_cons_self ..) hr
    · have hcr : '\r' ≠ c := fun e => hc e.symm
      rcases ih h.tail hr with hno | ⟨line, rfl, hline⟩
      · exact .inl (by simp [hcr, hno])
      · exact .inr ⟨c :: line, rfl, by simp [hcr, hline]⟩

theorem Paired.not_mem_of_no_feed (h : Paired t) (hn : '\n' ∉ t) : '\r' ∉ t := by
  intro hm
  obtain ⟨i, hi⟩ := List.getElem?_of_mem hm
  exact hn (List.mem_of_getElem? (h i hi))

/-! ## Taking the carriage returns out -/

@[simp] theorem bare_nil : bare [] = [] := rfl

theorem bare_append (a b : Text) : bare (a ++ b) = bare a ++ bare b := List.filter_append ..

theorem bare_cons_of_ne (h : c ≠ '\r') (r : Text) : bare (c :: r) = c :: bare r := by
  simp [bare, h]

@[simp] theorem bare_feed (r : Text) : bare ('\n' :: r) = '\n' :: bare r := rfl

@[simp] theorem bare_return (r : Text) : bare ('\r' :: r) = bare r := rfl

theorem bare_of_not_mem (h : '\r' ∉ t) : bare t = t := by
  rw [bare, List.filter_eq_self]
  intro c hc
  simpa using fun e : c = '\r' => h (e ▸ hc)

theorem not_mem_bare (t : Text) : '\r' ∉ bare t := by
  simp [bare]

/-- A character that does not open a line end is no carriage return. -/
theorem Paired.ne_return (h : Paired (c :: r))
    (hnot : ∀ after, c = '\r' → r = '\n' :: after → False) : c ≠ '\r' := by
  rintro rfl
  obtain ⟨after, rfl⟩ := h.head
  exact hnot after rfl rfl

theorem withFeeds_eq_bare (h : Paired t) : withFeeds t = bare t := by
  fun_induction withFeeds t with
  | case1 => rfl
  | case2 r ih => exact congrArg _ (ih h.tail.tail)
  | case3 c r hnot ih =>
    have hc := h.ne_return hnot
    rw [bare_cons_of_ne hc, ih h.tail]

theorem unifyBreaks_eq_bare (h : Paired t) : unifyBreaks t = bare t := by
  fun_induction unifyBreaks t with
  | case1 => rfl
  | case2 r ih => exact congrArg _ (ih h.tail.tail)
  | case3 c r hnot ih =>
    have hc := h.ne_return hnot
    rw [bare_cons_of_ne hc, ih h.tail, if_neg hc]

/-! ## Runs of characters -/

/-- Carriage returns that count as part of a run are in the run and nowhere else. -/
theorem takeWhile_bare_of_pos (h : p '\r' = true) (t : Text) :
    (bare t).takeWhile p = bare (t.takeWhile p) ∧ (bare t).dropWhile p = bare (t.dropWhile p) := by
  induction t with
  | nil => exact ⟨rfl, rfl⟩
  | cons c r ih =>
    by_cases hc : c = '\r'
    · subst hc
      rw [bare_return, List.takeWhile_cons_of_pos h, List.dropWhile_cons_of_pos h, bare_return]
      exact ih
    · cases hp : p c with
      | true => simp [bare_cons_of_ne hc, hp, ih]
      | false => simp [bare_cons_of_ne hc, hp]

/-- A run that a line end breaks off is the same with and without carriage returns. -/
theorem takeWhile_bare_of_neg (ht : Linked t) (hr : p '\r' = false) (hf : p '\n' = false) :
    (bare t).takeWhile p = t.takeWhile p ∧ (bare t).dropWhile p = bare (t.dropWhile p) := by
  induction t with
  | nil => exact ⟨rfl, rfl⟩
  | cons c r ih =>
    by_cases hc : c = '\r'
    · subst hc
      rcases ht.head with rfl | ⟨after, rfl⟩
      · simp [bare, hr]
      · simp [bare, hr, hf]
    · cases hp : p c with
      | true => simp [bare_cons_of_ne hc, hp, ih ht.tail]
      | false => simp [bare_cons_of_ne hc, hp]

theorem not_mem_takeWhile (h : p c = false) (t : Text) : c ∉ t.takeWhile p := by
  intro hm
  rw [List.mem_takeWhile_imp hm] at h
  cases h

/-! ## Words -/

/-- Carriage returns at line ends are not part of any word. The induction goes from blank to blank
and from word to word. -/
theorem words_bare {t : Text} (h : Linked t) : words (bare t) = words t := by
  match t, h with
  | [], _ => rfl
  | c :: r, h =>
    cases hb : isBlank c with
    | true =>
      rw [words_cons_of_blank hb]
      by_cases hc : c = '\r'
      · subst hc
        rw [bare_return]
        exact words_bare h.tail
      · rw [bare_cons_of_ne hc, words_cons_of_blank hb]
        exact words_bare h.tail
    | false =>
      have hc : c ≠ '\r' := by
        rintro rfl
        exact absurd hb (by decide)
      obtain ⟨htake, hdrop⟩ := takeWhile_bare_of_neg (p := (!isBlank ·)) h.tail rfl rfl
      have hsplit := List.takeWhile_append_dropWhile (p := (!isBlank ·)) (l := r)
      have hrest : Linked (r.dropWhile (!isBlank ·)) := Linked.right (hsplit ▸ h.tail)
      -- The rest after the first word is a shorter text of the same kind.
      have hshort := (List.dropWhile_sublist (!isBlank ·) (l := r)).length_le
      rw [bare_cons_of_ne hc, words_cons_of_not_blank hb, words_cons_of_not_blank hb, htake, hdrop,
        words_bare hrest]
termination_by t.length

theorem squeeze_bare (h : Linked t) : squeeze (bare t) = squeeze t := by
  rw [squeeze, words_bare h, squeeze]

end Text

end Playscript
