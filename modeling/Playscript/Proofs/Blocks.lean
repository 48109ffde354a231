import Playscript.Proofs.Words

/-!
# Blocks

What the three readers make of a block in its written form: a bracketed name with a body, a called
directive, a comment on its line.

* `splitBody_of_unmarked`: a body reaches up to the first marked line, and no further.
* `readDialogue_block`, `readDirective_call`, `readComment_line`: the blocks and their readings.
* `readDirective_join`: a directive called with arguments is resolved with these arguments.
-/

namespace Playscript

/-- No line of the text but the first opens a directive or a comment. -/
def Text.Unmarked (t : Text) : Prop :=
  ∀ before after, t = before ++ '\n' :: after → endsBody after = false

theorem Text.unmarked_of_not_mem {t : Text} (h : '\n' ∉ t) : t.Unmarked := by
  rintro before after rfl
  exact absurd h (by simp)

theorem Text.Unmarked.tail {c : Char} {t : Text} (h : Text.Unmarked (c :: t)) : t.Unmarked := by
  rintro before after rfl
  exact h (c :: before) after rfl

theorem endsBody_cons (c : Char) (r : Text) : endsBody (c :: r) = decide (c = '@' ∨ c = '#') := by
  by_cases hat : c = '@'
  · subst hat
    rfl
  · by_cases hhash : c = '#'
    · subst hhash
      rfl
    · simp [endsBody, hat, hhash]

theorem endsBody_append {t : Text} (h : endsBody t = false) {rest : Text}
    (hr : t = [] → endsBody rest = false) : endsBody (t ++ rest) = false := by
  cases t with
  | nil => exact hr rfl
  | cons c r =>
    rw [endsBody_cons] at h
    rw [List.cons_append, endsBody_cons, h]

/-- A body of a dialogue ends where the text does, or at a line feed before a marked line. -/
theorem splitBody_of_unmarked {body rest : Text} (hb : body.Unmarked)
    (hr : rest = [] ∨ ∃ next, rest = '\n' :: next ∧ endsBody next = true) :
    splitBody (body ++ rest) = (body, rest.drop 1) := by
  induction body with
  | nil =>
    rcases hr with rfl | ⟨next, rfl, hn⟩
    · rfl
    · simp [splitBody, hn]
  | cons c body ih =>
    have hend : ¬(c = '\n' ∧ endsBody (body ++ rest) = true) := by
      rintro ⟨rfl, he⟩
      have hbody : endsBody body = false := hb [] body rfl
      rw [endsBody_append hbody] at he
      · cases he
      · rintro rfl
        rcases hr with rfl | ⟨next, rfl, -⟩ <;> rfl
    rw [List.cons_append, splitBody, if_neg hend, ih hb.tail]

/-! ## Cutting at a character -/

theorem takeWhile_append_cons {p : Char → Bool} {t : Text} {c : Char} (ht : ∀ d ∈ t, p d = true)
    (hc : p c = false) (rest : Text) : (t ++ c :: rest).takeWhile p = t := by
  rw [List.takeWhile_append_of_pos ht, List.takeWhile_cons_of_neg (by simp [hc]), List.append_nil]

/-- A line goes on past what holds no line break. -/
theorem restOfLine_append {t : Text} (ht : ∀ c ∈ t, Text.isLineBreak c = false) (rest : Text) :
    restOfLine (t ++ rest) = t ++ restOfLine rest :=
  List.takeWhile_append_of_pos fun c hc => by simp [ht c hc]

/-- On a line that holds a closing character, what stands before it is found by looking for it. -/
theorem restOfLine_closed {t : Text} {close : Char}
    (ht : ∀ c ∈ t, c ≠ close ∧ Text.isLineBreak c = false)
    (hclose : Text.isLineBreak close = false) (rest : Text) :
    (restOfLine (t ++ close :: rest)).contains close = true ∧
      (restOfLine (t ++ close :: rest)).takeWhile (· ≠ close) = t := by
  have hline : restOfLine (t ++ close :: rest) = t ++ close :: restOfLine rest := by
    rw [restOfLine_append fun c hc => (ht c hc).2]
    simp [restOfLine, hclose]
  rw [hline]
  refine ⟨by simp, takeWhile_append_cons (fun d hd => ?_) (by simp) _⟩
  simpa using (ht d hd).1

/-- A line that holds a closing character is closed by the first one. -/
theorem exists_closed {t : Text} {close : Char} (h : (restOfLine t).contains close = true) :
    ∃ inside rest, t = inside ++ close :: rest ∧
      ∀ c ∈ inside, c ≠ close ∧ Text.isLineBreak c = false := by
  have hmem : close ∈ restOfLine t := by simpa using h
  obtain ⟨inside, after, hline, hnot⟩ := List.eq_append_cons_of_mem hmem
  have hsplit := List.takeWhile_append_dropWhile (p := fun c => !Text.isLineBreak c) (l := t)
  rw [show t.takeWhile (fun c => !Text.isLineBreak c) = inside ++ close :: after from hline,
    List.append_assoc, List.cons_append] at hsplit
  refine ⟨inside, _, hsplit.symm, fun c hc => ⟨fun e => hnot (e ▸ hc), ?_⟩⟩
  have hline' : c ∈ restOfLine t := by
    rw [hline]
    exact List.mem_append_left _ hc
  simpa using List.mem_takeWhile_imp hline'

/-! ## Readings of blocks -/

/-- A speaker is named up to the bracket, and the body follows it. -/
theorem readDialogue_closed {name : Text}
    (hn : ∀ c ∈ name, c ≠ ']' ∧ Text.isLineBreak c = false) (rest : Text) :
    readDialogue ('[' :: (name ++ ']' :: rest)) =
      .ok ⟨.dialogue (Text.trim name) (splitBody rest).1.squeeze,
        name.length + 2 + (splitBody rest).1.length + (if (splitBody rest).2 = [] then 0 else 1),
        []⟩ := by
  obtain ⟨hclosed, hname⟩ := restOfLine_closed hn (by decide) rest
  have hafter : (name ++ ']' :: rest).drop (name.length + 1) = rest := by
    rw [← List.drop_drop, List.drop_left]
    rfl
  simp only [readDialogue, List.drop_succ_cons, List.drop_zero, hclosed, hname, hafter, if_true]

theorem readDialogue_block {name body rest : Text}
    (hn : ∀ c ∈ name, c ≠ ']' ∧ Text.isLineBreak c = false) (hb : body.Unmarked)
    (hr : rest = [] ∨ ∃ next, rest = '\n' :: next ∧ endsBody next = true) :
    readDialogue ('[' :: (name ++ ']' :: (body ++ rest))) =
      .ok ⟨.dialogue (Text.trim name) body.squeeze,
        name.length + 2 + body.length + (if rest = [] then 0 else 1), []⟩ := by
  have hfeed : (rest.drop 1 = []) = (rest = []) := by
    rcases hr with rfl | ⟨next, rfl, hn⟩
    · rfl
    · have : next ≠ [] := by
        rintro rfl
        cases hn
      simp [this]
  simp only [readDialogue_closed hn, splitBody_of_unmarked hb hr, hfeed]

theorem readDirective_call {name raw : Text} (hne : name ≠ [])
    (hn : ∀ c ∈ name, isNameLetter c = true)
    (hraw : ∀ c ∈ raw, c ≠ ')' ∧ Text.isLineBreak c = false) (rest : Text) :
    readDirective ('@' :: (name ++ '(' :: (raw ++ ')' :: rest))) =
      match Directive.resolve name (splitArguments raw) with
      | .ok r => .ok ⟨.directive r.directive, name.length + raw.length + 3, r.ignored⟩
      | .error fault => .error (.refused fault) := by
  obtain ⟨hclosed, hinner⟩ := restOfLine_closed hraw (by decide) rest
  have hname : (name ++ '(' :: (raw ++ ')' :: rest)).takeWhile isNameLetter = name :=
    takeWhile_append_cons hn (by decide) _
  have hafter : (name ++ '(' :: (raw ++ ')' :: rest)).drop name.length
      = '(' :: (raw ++ ')' :: rest) := List.drop_left
  rcases hd : Directive.resolve name (splitArguments raw) with fault | r <;>
    simp only [readDirective, List.drop_succ_cons, List.drop_zero, hname, if_neg hne, hafter,
      hclosed, hinner, hd, if_true]

/-- Arguments that are joined with commas reach the directive as they are. -/
theorem readDirective_join {name : Text} {args : List Text} (hne : name ≠ [])
    (hn : ∀ c ∈ name, isNameLetter c = true) (hone : args ≠ [[]])
    (ht : ∀ a ∈ args, Text.trim a = a)
    (hc : ∀ a ∈ args, ∀ c ∈ a, c ≠ ',' ∧ c ≠ ')' ∧ Text.isLineBreak c = false) (rest : Text) :
    readDirective ('@' :: (name ++ '(' :: ([','].intercalate args ++ ')' :: rest))) =
      match Directive.resolve name args with
      | .ok r =>
        .ok ⟨.directive r.directive, name.length + ([','].intercalate args).length + 3, r.ignored⟩
      | .error fault => .error (.refused fault) := by
  have hraw : ∀ c ∈ [','].intercalate args, c ≠ ')' ∧ Text.isLineBreak c = false := by
    intro c hmem
    rcases Text.mem_intercalate hmem with h | ⟨a, ha, hca⟩
    · obtain rfl : c = ',' := by simpa using h
      decide
    · exact (hc a ha c hca).2
  rw [readDirective_call hne hn hraw, splitArguments_intercalate hone ht]
  exact fun a ha hmem => (hc a ha ',' hmem).1 rfl

theorem readComment_line {note rest : Text} (hn : '\n' ∉ note)
    (hr : rest = [] ∨ ∃ next, rest = '\n' :: next) :
    readComment ('#' :: (note ++ rest)) =
      ⟨.comment, note.length + 1 + (if rest = [] then 0 else 1), []⟩ := by
  have hall : ∀ c ∈ '#' :: note, (decide (c ≠ '\n')) = true := by
    intro c hc
    rcases List.mem_cons.1 hc with rfl | hc
    · decide
    · exact decide_eq_true fun e => hn (e ▸ hc)
  have hline : ('#' :: (note ++ rest)).takeWhile (· ≠ '\n') = '#' :: note := by
    rcases hr with rfl | ⟨next, rfl⟩
    · rw [List.append_nil]
      exact List.takeWhile_eq_self_iff.2 hall
    · exact takeWhile_append_cons hall (by simp) next
  have hdrop : ('#' :: (note ++ rest)).drop (note.length + 1) = rest := by simp
  simp only [readComment, hline, List.length_cons, hdrop]

end Playscript
