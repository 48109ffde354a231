import Playscript.Proofs.Returns
import Playscript.Proofs.Blocks
import Playscript.Proofs.Scanning

/-!
# Readings without carriage returns

Each reader gives the same element for a text and for that text without its carriage returns. What
it consumes of the one is what it consumes of the other, carriage returns left out. Where it finds a
defect it has not come past any carriage return, so it reports the same.

* `splitBody_bare`: bodies end at the same mark.
* `SameReading`: how the two readings are related.
* `Mark.read_bare`: every reader gives readings that are so related.
-/

namespace Playscript

open Text (bare Linked Paired)

/-! ## Lines and bodies -/

theorem isLineBreak_return : Text.isLineBreak '\r' = true := by decide

theorem endsBody_bare {t : Text} (h : Linked t) : endsBody (bare t) = endsBody t := by
  cases t with
  | nil => rfl
  | cons c r =>
    by_cases hc : c = '\r'
    · subst hc
      rcases h.head with rfl | ⟨after, rfl⟩ <;> rfl
    · rw [Text.bare_cons_of_ne hc, endsBody_cons, endsBody_cons]

/-- A body ends at the same mark with and without carriage returns. -/
theorem splitBody_bare {t : Text} (h : Linked t) :
    splitBody (bare t) = (bare (splitBody t).1, bare (splitBody t).2) := by
  induction t with
  | nil => rfl
  | cons c r ih =>
    by_cases hc : c = '\r'
    · subst hc
      rw [Text.bare_return, ih h.tail, splitBody, if_neg (by simp)]
      rfl
    · rw [Text.bare_cons_of_ne hc, splitBody, splitBody, endsBody_bare h.tail]
      split
      · rfl
      · rw [ih h.tail, Text.bare_cons_of_ne hc]

/-! ## Readings -/

/-- How a reading of a text is related to that of the text without its carriage returns. They give
the same element, and consume the same but for the carriage returns; or they are defective in the
same way, and have come past no carriage return. -/
inductive SameReading (here : Text) : Except Defect Reading → Except Defect Reading → Prop
  | read {consumed rest : Text} {size size' : Nat} (hsplit : here = consumed ++ rest)
      (hpaired : Paired consumed) (hsize : size = consumed.length)
      (hsize' : size' = (bare consumed).length) (element : Element) (ignored : List Text) :
      SameReading here (.ok ⟨element, size, ignored⟩) (.ok ⟨element, size', ignored⟩)
  | missing {consumed rest : Text} {reach : Nat} (hsplit : here = consumed ++ rest)
      (hplain : '\r' ∉ consumed) (hreach : reach = consumed.length) (what : Missing) :
      SameReading here (.error (.missing what reach)) (.error (.missing what reach))
  | refused (fault : Fault) :
      SameReading here (.error (.refused fault)) (.error (.refused fault))

theorem restOfLine_bare {t : Text} (h : Linked t) : restOfLine (bare t) = restOfLine t :=
  (Text.takeWhile_bare_of_neg h (by decide) (by decide)).1

theorem exists_restOfLine (t : Text) : ∃ rest, t = restOfLine t ++ rest :=
  ⟨_, (List.takeWhile_append_dropWhile ..).symm⟩

theorem not_mem_restOfLine (t : Text) : '\r' ∉ restOfLine t :=
  Text.not_mem_takeWhile (by decide) t

theorem not_mem_of_closed {inside : Text} {close : Char}
    (h : ∀ c ∈ inside, c ≠ close ∧ Text.isLineBreak c = false) : '\r' ∉ inside := by
  intro hm
  have := (h _ hm).2
  rw [isLineBreak_return] at this
  cases this

theorem bare_append_cons {a : Text} {c : Char} (ha : '\r' ∉ a) (hc : c ≠ '\r') (b : Text) :
    bare (a ++ c :: b) = a ++ c :: bare b := by
  rw [Text.bare_append, Text.bare_of_not_mem ha, Text.bare_cons_of_ne hc]

/-- A reading that consumes what holds no carriage return is the same reading. -/
theorem SameReading.of_plain {here consumed rest : Text} (hsplit : here = consumed ++ rest)
    (hplain : '\r' ∉ consumed) {size : Nat} (hsize : size = consumed.length) (element : Element)
    (ignored : List Text) :
    SameReading here (.ok ⟨element, size, ignored⟩) (.ok ⟨element, size, ignored⟩) :=
  .read hsplit (Text.paired_of_not_mem hplain) hsize (by rw [hsize, Text.bare_of_not_mem hplain])
    element ignored

/-- A body ends where the text does or before a mark, with and without carriage returns. -/
theorem sameReading_body {name rest : Text} (hname : '\r' ∉ name) (h : Paired rest)
    (element : Element) :
    SameReading ('[' :: (name ++ ']' :: rest))
      (.ok ⟨element,
        name.length + 2 + (splitBody rest).1.length + (if (splitBody rest).2 = [] then 0 else 1),
        []⟩)
      (.ok ⟨element,
        name.length + 2 + (bare (splitBody rest).1).length +
          (if bare (splitBody rest).2 = [] then 0 else 1), []⟩) := by
  have hmark := opensElement_splitBody rest
  have hsplit := splitBody_append rest
  generalize (splitBody rest).1 = body at *
  generalize (splitBody rest).2 = next at *
  have hplain : '\r' ∉ '[' :: (name ++ [']']) := by simp [hname]
  have hhead : Paired ('[' :: (name ++ [']'])) := Text.paired_of_not_mem hplain
  by_cases hnext : next = []
  · subst hnext
    rw [if_pos rfl, List.append_nil] at hsplit
    subst hsplit
    have hfirst : '[' :: (name ++ ']' :: rest) = '[' :: (name ++ [']']) ++ rest ++ [] := by simp
    refine .read hfirst (hhead.append h) ?_ ?_ _ _
    · simp
      omega
    · rw [Text.bare_append, Text.bare_of_not_mem hplain]
      simp
      omega
  · rw [if_neg hnext] at hsplit
    subst hsplit
    have hkept : bare next ≠ [] := by
      intro hnil
      have hends := endsBody_bare (t := next) h.linked.right.tail
      rw [hnil, hmark.resolve_left hnext] at hends
      cases hends
    have hfirst : '[' :: (name ++ ']' :: (body ++ '\n' :: next)) =
        '[' :: (name ++ [']']) ++ (body ++ ['\n']) ++ next := by simp
    have hfed : Paired (body ++ ['\n']) :=
      (Linked.left (b := next) (by simpa using h.linked)).paired_feed
    refine .read hfirst (hhead.append hfed) ?_ ?_ _ _
    · simp [hnext]
      omega
    · rw [Text.bare_append, Text.bare_of_not_mem hplain, Text.bare_append]
      simp [hkept]
      omega

theorem readDialogue_bare {after : Text} (h : Paired after) :
    SameReading ('[' :: after) (readDialogue ('[' :: after))
      (readDialogue ('[' :: bare after)) := by
  by_cases hclosed : (restOfLine after).contains ']' = true
  · obtain ⟨name, rest, rfl, hinside⟩ := exists_closed hclosed
    have hname := not_mem_of_closed hinside
    have hrest : Paired rest := Paired.right (a := name ++ [']']) (by simpa using h)
    have hbody : Linked (splitBody rest).1 := Linked.left (splitBody_append rest ▸ hrest.linked)
    rw [bare_append_cons hname (by decide), readDialogue_closed hinside,
      readDialogue_closed hinside, splitBody_bare hrest.linked, Text.squeeze_bare hbody]
    exact sameReading_body hname hrest _
  · obtain ⟨rest, hsplit⟩ := exists_restOfLine after
    have hplain : '\r' ∉ '[' :: restOfLine after := by simp [not_mem_restOfLine]
    simp only [readDialogue, List.drop_succ_cons, List.drop_zero, if_neg hclosed,
      restOfLine_bare h.linked]
    exact .missing (congrArg ('[' :: ·) hsplit) hplain (Nat.add_comm ..) .speakerEnd

/-- What comes of a directive once its arguments are opened. -/
def readArguments (name inner : Text) : Except Defect Reading :=
  let line := restOfLine inner
  if line.contains ')' then
    let raw := line.takeWhile (· ≠ ')')
    match Directive.resolve name (splitArguments raw) with
    | .ok r => .ok ⟨.directive r.directive, name.length + raw.length + 3, r.ignored⟩
    | .error fault => .error (.refused fault)
  else .error (.missing .argumentsEnd (name.length + line.length + 2))

/-- A directive is named by the letters after its mark. -/
theorem readDirective_eq (after : Text) :
    readDirective ('@' :: after) =
      let name := after.takeWhile isNameLetter
      if name = [] then .error (.missing .directiveName 1)
      else
        match after.dropWhile isNameLetter with
        | '(' :: inner => readArguments name inner
        | _ => .error (.missing (.argumentsStart name) (name.length + 1)) := by
  simp only [readDirective, List.drop_succ_cons, List.drop_zero, Text.drop_takeWhile]
  rfl

theorem readArguments_bare {inner : Text} (h : Linked inner) (name : Text) :
    readArguments name (bare inner) = readArguments name inner := by
  simp only [readArguments, restOfLine_bare h]

/-- Carriage returns hide no parenthesis. -/
theorem opened_of_bare {tail inner : Text} (h : Linked tail) (hbare : bare tail = '(' :: inner) :
    ∃ rest, tail = '(' :: rest := by
  cases tail with
  | nil => cases hbare
  | cons c r =>
    by_cases hc : c = '\r'
    · subst hc
      rcases h.head with rfl | ⟨after, rfl⟩ <;> cases hbare
    · rw [Text.bare_cons_of_ne hc] at hbare
      exact ⟨r, by rw [(List.cons.inj hbare).1]⟩

/-- Arguments stand on one line, so no carriage return is among them. -/
theorem sameReading_arguments {name : Text} (hname : '\r' ∉ name) (inner : Text) :
    SameReading ('@' :: (name ++ '(' :: inner)) (readArguments name inner)
      (readArguments name inner) := by
  unfold readArguments
  by_cases hclosed : (restOfLine inner).contains ')' = true
  · obtain ⟨raw, rest, hraw, hinside⟩ := exists_closed hclosed
    have hline := (restOfLine_closed hinside (by decide) rest).2
    rw [← hraw] at hline
    have hplain : '\r' ∉ '@' :: (name ++ '(' :: (raw ++ [')'])) := by
      simp [hname, not_mem_of_closed hinside]
    have hfirst : '@' :: (name ++ '(' :: inner) =
        '@' :: (name ++ '(' :: (raw ++ [')'])) ++ rest := by simp [hraw]
    simp only [hclosed, hline, if_true]
    cases Directive.resolve name (splitArguments raw) with
    | error fault => exact .refused fault
    | ok r => exact .of_plain hfirst hplain (by simp; omega) (.directive r.directive) r.ignored
  · obtain ⟨rest, hsplit⟩ := exists_restOfLine inner
    have hplain : '\r' ∉ '@' :: (name ++ '(' :: restOfLine inner) := by
      simp [hname, not_mem_restOfLine]
    have hfirst : '@' :: (name ++ '(' :: inner) =
        '@' :: (name ++ '(' :: restOfLine inner) ++ rest := by simp [← hsplit]
    simp only [if_neg hclosed]
    exact .missing hfirst hplain (by simp; omega) .argumentsEnd

theorem readDirective_bare {after : Text} (h : Paired after) :
    SameReading ('@' :: after) (readDirective ('@' :: after))
      (readDirective ('@' :: bare after)) := by
  obtain ⟨htake, hdrop⟩ := Text.takeWhile_bare_of_neg (p := isNameLetter) h.linked rfl rfl
  have hname : '\r' ∉ after.takeWhile isNameLetter := Text.not_mem_takeWhile rfl after
  have hsplit := List.takeWhile_append_dropWhile (p := isNameLetter) (l := after)
  simp only [readDirective_eq, htake, hdrop]
  generalize after.takeWhile isNameLetter = name at *
  generalize after.dropWhile isNameLetter = tail at *
  subst hsplit
  have htail : Linked tail := h.linked.right
  by_cases hne : name = []
  · have hfirst : '@' :: (name ++ tail) = ['@'] ++ (name ++ tail) := rfl
    rw [if_pos hne, if_pos hne]
    exact .missing hfirst (by simp) rfl .directiveName
  rw [if_neg hne, if_neg hne]
  by_cases hopen : ∃ inner, tail = '(' :: inner
  · -- Name and arguments stand on one line, so from here on the two readings are the same.
    obtain ⟨inner, rfl⟩ := hopen
    have hinner : Linked inner := htail.tail
    rw [Text.bare_cons_of_ne (by decide)]
    simp only [readArguments_bare hinner]
    exact sameReading_arguments hname inner
  · have hfirst : '@' :: (name ++ tail) = ('@' :: name) ++ tail := rfl
    have hmissing := SameReading.missing hfirst (by simp [hname]) rfl (.argumentsStart name)
    split
    · exact absurd ⟨_, rfl⟩ hopen
    · split
      · rename_i hbare
        exact absurd (opened_of_bare htail hbare) hopen
      · exact hmissing

theorem readComment_bare {after : Text} (h : Paired ('#' :: after)) :
    SameReading ('#' :: after) (.ok (readComment ('#' :: after)))
      (.ok (readComment ('#' :: bare after))) := by
  have hbare : '#' :: bare after = bare ('#' :: after) := rfl
  obtain ⟨htake, hdrop⟩ := Text.takeWhile_bare_of_pos (p := (· ≠ '\n')) rfl ('#' :: after)
  have hsplit := List.takeWhile_append_dropWhile (p := (· ≠ '\n')) (l := '#' :: after)
  have hhead := List.head?_dropWhile_not (· ≠ '\n') ('#' :: after)
  simp only [readComment, Text.drop_takeWhile, hbare]
  simp only [hdrop, htake]
  generalize ('#' :: after).takeWhile (· ≠ '\n') = line at *
  generalize ('#' :: after).dropWhile (· ≠ '\n') = tail at *
  rw [← hsplit] at h ⊢
  cases tail with
  | nil =>
    rw [List.append_nil] at h
    exact .read rfl h (by simp) (by simp) .comment []
  | cons c next =>
    obtain rfl : c = '\n' := by simpa using hhead
    have hfirst : line ++ '\n' :: next = line ++ ['\n'] ++ next := by simp
    have hpaired : Paired (line ++ ['\n']) :=
      (Linked.left (b := next) (by simpa using h.linked)).paired_feed
    exact .read hfirst hpaired (by simp) (by simp [Text.bare_append]) .comment []

theorem Mark.read_bare {mark : Mark} {after : Text} (h : Paired (mark.char :: after)) :
    SameReading (mark.char :: after) (mark.read (mark.char :: after))
      (mark.read (mark.char :: bare after)) := by
  cases mark with
  | dialogue => exact readDialogue_bare h.tail
  | directive => exact readDirective_bare h.tail
  | comment => exact readComment_bare h

end Playscript
