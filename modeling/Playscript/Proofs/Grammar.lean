import Mathlib.Data.List.Basic
import Playscript.Proofs.LineEnds
import Playscript.Proofs.Spacing
import Playscript.Proofs.Writing

/-!
# The grammar of elements

Which texts are read as a dialogue or a directive, said without the readers: the written forms, how
far each reaches, and what is wrong with a text that has none of them.

* `DialogueBlock.unique`: a text opens with one dialogue at most.
* `dialogue_grammar`: what is read at a bracket.
* `spelled_or_misspelled`: what follows an at sign calls a directive or has one of six errors.
* `directive_grammar`: what is read at an at sign.
-/

namespace Playscript

/-! ## Lines -/

namespace Text

/-- Something closes on its line: the character is found before any line break. -/
def ClosesWith (t : Text) (close : Char) : Prop :=
  ∃ inside after, t = inside ++ close :: after ∧ ∀ c ∈ inside, isLineBreak c = false

/-- A text begins with a line, whose end is a line break or the end of the text. -/
structure BeginsWithLine (t line : Text) : Prop where
  split : ∃ tail, t = line ++ tail ∧ ∀ c, tail.head? = some c → isLineBreak c = true
  unbroken : ∀ c ∈ line, isLineBreak c = false

/-- The text opens with the mark of a directive or of a comment. -/
def Marked (t : Text) : Prop := t.head? = some '@' ∨ t.head? = some '#'

theorem beginsWithLine_restOfLine (t : Text) : t.BeginsWithLine (restOfLine t) := by
  constructor
  · refine ⟨t.dropWhile fun c => !isLineBreak c, (List.takeWhile_append_dropWhile ..).symm, ?_⟩
    intro c hc
    have hnot := List.head?_dropWhile_not (fun c => !isLineBreak c) t
    rw [hc] at hnot
    simpa using hnot
  · intro c hc
    simpa using List.mem_takeWhile_imp hc

theorem BeginsWithLine.restOfLine_eq {t line : Text} (h : t.BeginsWithLine line) :
    restOfLine t = line := by
  obtain ⟨tail, rfl, htail⟩ := h.split
  rw [restOfLine_append h.unbroken, restOfLine]
  cases tail with
  | nil => simp
  | cons c tail => rw [List.takeWhile_cons_of_neg (by simp [htail c rfl]), List.append_nil]

theorem closesWith_iff {t : Text} {close : Char} (hclose : isLineBreak close = false) :
    t.ClosesWith close ↔ close ∈ restOfLine t := by
  constructor
  · rintro ⟨inside, after, rfl, hinside⟩
    rw [restOfLine_append hinside, restOfLine, List.takeWhile_cons_of_pos (by simp [hclose])]
    simp
  · intro hmem
    obtain ⟨inside, after, rfl, hinside⟩ := exists_closed (t := t) (by simpa using hmem)
    exact ⟨inside, after, rfl, fun c hc => (hinside c hc).2⟩

end Text

open Text (WordsIn ClosesWith BeginsWithLine Marked)

/-- The error at the place where a reader stopped for want of something. -/
def Missing.errorAt (what : Missing) (source : Text) (stop : Nat) : ScriptError :=
  ScriptError.locate { fault := .malformed stop what.expected what.note } source stop

section
variable {source : Text} {offset : Nat} (mark : Mark)

theorem parseAt_of_read (h : offset ≤ source.length) {r : Reading}
    (hr : mark.read (source.drop offset) = .ok r) :
    mark.parseAt source offset = .ok (r.startingAt offset) := by
  simp only [Mark.parseAt, hr, Nat.min_eq_left h]

theorem parseAt_of_missing (h : offset ≤ source.length) {what : Missing} {reach : Nat}
    (hr : mark.read (source.drop offset) = .error (.missing what reach)) :
    mark.parseAt source offset = .error (what.errorAt source (offset + reach)) := by
  simp only [Mark.parseAt, hr, toError_missing h, Missing.errorAt]

theorem parseAt_of_refused {fault : Fault}
    (hr : mark.read (source.drop offset) = .error (.refused fault)) :
    mark.parseAt source offset = .error (ScriptError.locate { fault } source offset) := by
  simp only [Mark.parseAt, hr, Defect.toError]

end

/-! ## Dialogues -/

theorem endsBody_iff {t : Text} : endsBody t = true ↔ t.Marked := by
  cases t with
  | nil => simp [endsBody, Text.Marked]
  | cons c r => simp [endsBody_cons, Text.Marked]

/-- A text is a dialogue with what follows it: a name between brackets on one line, what is said,
which no marked line is part of, and nothing else or a marked line. -/
structure DialogueBlock (here name said rest : Text) : Prop where
  text : here = '[' :: (name ++ ']' :: (said ++ rest))
  name : ∀ c ∈ name, c ≠ ']' ∧ Text.isLineBreak c = false
  said : ∀ before after, said = before ++ '\n' :: after → ¬Text.Marked after
  rest : rest = [] ∨ ∃ next, rest = '\n' :: next ∧ Text.Marked next

namespace DialogueBlock

variable {here name said rest : Text}

theorem unmarked (h : DialogueBlock here name said rest) : said.Unmarked := by
  intro before after hsplit
  rw [Bool.eq_false_iff]
  intro hends
  exact h.said before after hsplit (endsBody_iff.1 hends)

theorem follows (h : DialogueBlock here name said rest) :
    rest = [] ∨ ∃ next, rest = '\n' :: next ∧ endsBody next = true := by
  rcases h.rest with rfl | ⟨next, rfl, hnext⟩
  · exact .inl rfl
  · exact .inr ⟨next, rfl, endsBody_iff.2 hnext⟩

/-- The name is what stands before the first bracket, and what is said reaches up to the first
marked line, so nothing can be cut in another way. -/
theorem unique (h : DialogueBlock here name said rest) {name' said' rest' : Text}
    (h' : DialogueBlock here name' said' rest') : name' = name ∧ said' = said ∧ rest' = rest := by
  have htext : name' ++ ']' :: (said' ++ rest') = name ++ ']' :: (said ++ rest) :=
    (List.cons.inj (h'.text.symm.trans h.text)).2
  have hname : name' = name := by
    have hcut := (restOfLine_closed h.name (by decide) (said ++ rest)).2
    have hcut' := (restOfLine_closed h'.name (by decide) (said' ++ rest')).2
    rw [htext] at hcut'
    exact hcut'.symm.trans hcut
  subst hname
  have htail : said' ++ rest' = said ++ rest :=
    (List.cons.inj (List.append_cancel_left htext)).2
  have hsaid : said' = said := by
    have hcut := splitBody_of_unmarked h.unmarked h.follows
    have hcut' := splitBody_of_unmarked h'.unmarked h'.follows
    rw [htail, hcut] at hcut'
    exact (congrArg Prod.fst hcut').symm
  subst hsaid
  exact ⟨rfl, rfl, List.append_cancel_left htail⟩

theorem length_eq (h : DialogueBlock here name said rest) :
    here.length = name.length + said.length + 2 + rest.length := by
  simp only [h.text, List.length_cons, List.length_append]
  omega

theorem read (h : DialogueBlock here name said rest) :
    readDialogue here = .ok ⟨.dialogue (Text.trim name) said.squeeze,
      name.length + 2 + said.length + (if rest = [] then 0 else 1), []⟩ := by
  rw [h.text]
  exact readDialogue_block h.name h.unmarked h.follows

/-- What is left behind a dialogue is nothing, or the marked line. -/
theorem marked_drop (h : DialogueBlock here name said rest) :
    rest.drop 1 = [] ∨ Marked (rest.drop 1) := by
  rcases h.rest with rfl | ⟨next, rfl, hnext⟩
  · exact .inl rfl
  · exact .inr hnext

end DialogueBlock

theorem unmarked_splitBody (t : Text) : (splitBody t).1.Unmarked := by
  induction t with
  | nil => exact Text.unmarked_of_not_mem (by simp [splitBody])
  | cons c r ih =>
    by_cases hcut : c = '\n' ∧ endsBody r = true
    · rw [splitBody, if_pos hcut]
      exact Text.unmarked_of_not_mem (by simp)
    · rw [splitBody, if_neg hcut]
      intro before after hsplit
      cases before with
      | nil =>
        -- the line feed is the first character: what follows it was not cut off, so it is unmarked
        obtain ⟨rfl, rfl⟩ := List.cons.inj hsplit
        have hopen : endsBody r = false := by simpa using hcut
        have happend := splitBody_append r
        cases hbody : (splitBody r).1 with
        | nil => rfl
        | cons d body =>
          rw [hbody] at happend
          rw [happend, List.cons_append, endsBody_cons] at hopen
          rw [endsBody_cons, hopen]
      | cons d before =>
        exact ih before after (List.cons.inj hsplit).2

/-- A bracket that is closed on its line opens a dialogue. -/
theorem exists_block {after : Text} (h : after.ClosesWith ']') :
    ∃ name said rest, DialogueBlock ('[' :: after) name said rest := by
  have hmem := (Text.closesWith_iff (by decide)).1 h
  obtain ⟨name, tail, rfl, hname⟩ := exists_closed (t := after) (by simpa using hmem)
  refine ⟨name, (splitBody tail).1,
    if (splitBody tail).2 = [] then [] else '\n' :: (splitBody tail).2, ?_, hname, ?_, ?_⟩
  · rw [← splitBody_append]
  · intro before after hsplit hmarked
    have hends := unmarked_splitBody tail before after hsplit
    rw [endsBody_iff.2 hmarked] at hends
    cases hends
  · rcases opensElement_splitBody tail with hnil | hends
    · exact .inl (if_pos hnil)
    · have hne : (splitBody tail).2 ≠ [] := by
        intro hnil
        rw [hnil] at hends
        cases hends
      exact .inr ⟨_, if_neg hne, endsBody_iff.1 hends⟩

theorem readDialogue_unclosed {after line : Text} (h : ¬after.ClosesWith ']')
    (hline : after.BeginsWithLine line) :
    readDialogue ('[' :: after) = .error (.missing .speakerEnd (line.length + 1)) := by
  have hopen : (restOfLine after).contains ']' = false := by
    rw [Text.closesWith_iff (by decide)] at h
    simpa using h
  rw [hline.restOfLine_eq] at hopen
  simp only [readDialogue, List.drop_succ_cons, List.drop_zero, hline.restOfLine_eq, hopen]
  simp only [Bool.false_eq_true, if_false, List.take_succ_cons, List.take_zero,
    List.length_singleton, Nat.add_comm]

/-- A dialogue is read up to its end, or up to the mark behind it. -/
theorem DialogueBlock.parse {source name said rest : Text} {offset : Nat}
    (h : DialogueBlock (source.drop offset) name said rest) :
    ∃ stop, (rest = [] → stop = source.length) ∧
      (rest ≠ [] → stop = offset + (name.length + said.length + 3)) ∧
      source.drop stop = rest.drop 1 ∧
      Mark.dialogue.parseAt source offset =
        .ok ⟨.dialogue (Text.trim name) said.squeeze, stop, []⟩ := by
  have hlength := h.length_eq
  rw [List.length_drop] at hlength
  have hle : offset ≤ source.length := by omega
  refine ⟨offset + (name.length + 2 + said.length + (if rest = [] then 0 else 1)), ?_, ?_, ?_,
    parseAt_of_read .dialogue hle h.read⟩
  · rintro rfl
    simp only [List.length_nil] at hlength
    simp only [if_true]
    omega
  · intro hne
    rw [if_neg hne]
    omega
  · have hsplit : '[' :: (name ++ ']' :: (said ++ rest)) = '[' :: name ++ ']' :: said ++ rest := by
      simp
    have hsize : ('[' :: name ++ ']' :: said).length = name.length + 2 + said.length := by
      simp
      omega
    rw [← List.drop_drop, h.text, hsplit, ← hsize, List.drop_length_add_append]
    split
    · rename_i hnil
      rw [hnil]
      rfl
    · rfl

theorem parseAt_unclosed {source : Text} {offset : Nat} (h : source[offset]? = some '[')
    (hopen : ¬ClosesWith (source.drop (offset + 1)) ']') :
    ∃ line, BeginsWithLine (source.drop (offset + 1)) line ∧
      Mark.dialogue.parseAt source offset =
        .error (Missing.speakerEnd.errorAt source (offset + 1 + line.length)) := by
  have hlt : offset < source.length := (List.getElem?_eq_some_iff.1 h).1
  have hline := Text.beginsWithLine_restOfLine (source.drop (offset + 1))
  have hread := readDialogue_unclosed hopen hline
  rw [← Text.drop_of_getElem? h] at hread
  have hparse := parseAt_of_missing .dialogue (Nat.le_of_lt hlt) hread
  rw [← Nat.add_assoc, Nat.add_right_comm] at hparse
  exact ⟨_, hline, hparse⟩

/-- What is read at a bracket is closed on its line. -/
theorem closesWith_of_parse {source : Text} {offset : Nat} (h : source[offset]? = some '[')
    {p : Parsed} (hp : Mark.dialogue.parseAt source offset = .ok p) :
    ClosesWith (source.drop (offset + 1)) ']' := by
  by_contra hopen
  obtain ⟨line, -, herror⟩ := parseAt_unclosed h hopen
  rw [hp] at herror
  cases herror

theorem exists_block_at {source : Text} {offset : Nat} (h : source[offset]? = some '[')
    (hcloses : ClosesWith (source.drop (offset + 1)) ']') :
    ∃ name said rest, DialogueBlock (source.drop offset) name said rest := by
  rw [Text.drop_of_getElem? h]
  exact exists_block hcloses

/-- **Dialogues are exactly the blocks.** At a bracket a dialogue is read just if it is closed on
its line. The text from there is then a dialogue and what follows it in one way only; the name is
trimmed, the words of what is said are joined by single spaces, and the reading stops at the end of
the text or on the mark of the next line. Otherwise the end of the line is where the bracket is
missed. -/
theorem dialogue_grammar {source : Text} {offset : Nat} (h : source[offset]? = some '[') :
    ((∃ p, Mark.dialogue.parseAt source offset = .ok p) ↔
      ClosesWith (source.drop (offset + 1)) ']') ∧
    (ClosesWith (source.drop (offset + 1)) ']' →
      ∃ (name said rest : Text) (ws : List Text) (stop : Nat),
        DialogueBlock (source.drop offset) name said rest ∧
        (∀ name' said' rest', DialogueBlock (source.drop offset) name' said' rest' →
          name' = name ∧ said' = said ∧ rest' = rest) ∧
        WordsIn ws said ∧
        (rest = [] → stop = source.length) ∧
        (rest ≠ [] → stop = offset + (name.length + said.length + 3)) ∧
        source.drop stop = rest.drop 1 ∧
        (source.drop stop = [] ∨ Marked (source.drop stop)) ∧
        Mark.dialogue.parseAt source offset =
          .ok ⟨.dialogue (Text.trim name) ([' '].intercalate ws), stop, []⟩) ∧
    (¬ClosesWith (source.drop (offset + 1)) ']' →
      ∃ line, BeginsWithLine (source.drop (offset + 1)) line ∧
        Mark.dialogue.parseAt source offset =
          .error (Missing.speakerEnd.errorAt source (offset + 1 + line.length))) := by
  refine ⟨⟨?_, ?_⟩, ?_, parseAt_unclosed h⟩
  · rintro ⟨p, hp⟩
    exact closesWith_of_parse h hp
  · intro hcloses
    obtain ⟨name, said, rest, hb⟩ := exists_block_at h hcloses
    obtain ⟨stop, -, -, -, hparse⟩ := hb.parse
    exact ⟨_, hparse⟩
  · intro hcloses
    obtain ⟨name, said, rest, hb⟩ := exists_block_at h hcloses
    obtain ⟨stop, hnil, hmark, hdrop, hparse⟩ := hb.parse
    have hleft := hb.marked_drop
    rw [← hdrop] at hleft
    exact ⟨name, said, rest, said.words, stop, hb, fun _ _ _ h' => hb.unique h',
      Text.wordsIn_words said, hnil, hmark, hdrop, hleft, hparse⟩

/-- Two brackets, of which the second is not closed on its line. -/
def aside : Text := "Then [ Ada ] good\n [sic] day\r\n# [Bob\rhi]".toList

theorem dialogue_grammar_aside :
    aside[5]? = some '[' ∧ aside[32]? = some '[' ∧
    (∃ p, Mark.dialogue.parseAt aside 5 = .ok p) ∧
    ∃ line, BeginsWithLine (aside.drop 33) line ∧
      Mark.dialogue.parseAt aside 32 =
        .error (Missing.speakerEnd.errorAt aside (33 + line.length)) := by
  have hopen : ¬ClosesWith (aside.drop 33) ']' := by
    rw [Text.closesWith_iff (by decide)]
    decide +kernel
  have hcloses : ClosesWith (aside.drop 6) ']' := by
    rw [Text.closesWith_iff (by decide)]
    decide +kernel
  have hada : aside[5]? = some '[' := by decide
  have hbob : aside[32]? = some '[' := by decide
  exact ⟨hada, hbob, (dialogue_grammar hada).1.2 hcloses, (dialogue_grammar hbob).2.2 hopen⟩

/-! ## Directives -/

namespace Text

/-- A text that fits between parentheses on one line. -/
def Enclosed (t : Text) : Prop := ∀ c ∈ t, c ≠ ')' ∧ isLineBreak c = false

instance (t : Text) : Decidable t.Enclosed :=
  decidable_of_iff (t.all fun c => c ≠ ')' && !isLineBreak c) (by simp [Enclosed])

/-- A text that is not all blank. -/
def Shows (t : Text) : Prop := ∃ c ∈ t, isBlank c = false

/-- An unbroken run of letters. -/
def IsWord (t : Text) : Prop := t ≠ [] ∧ ∀ c ∈ t, c.isAlpha = true

end Text

open Text (Enclosed Shows IsWord)

/-- The texts that a directive is called by, with blanks anywhere around its arguments. -/
inductive Directive.Spelled : Directive → Text → Prop
  | jump {a : Text} (ha : a.Enclosed) (hcomma : ',' ∉ a) (hshows : a.Shows) :
    Spelled (.jump (Text.trim a) none) ("@jump(".toList ++ a ++ [')'])
  | choice {a b path : Text} (ha : a.Enclosed) (hb : b.Enclosed) (hpath : path.Enclosed)
      (hcomma : ∀ t ∈ [a, b, path], ',' ∉ t) :
    Spelled (.jump (Text.trim path) (some (Text.trim a, Text.trim b)))
      ("@jump(".toList ++ (a ++ [','] ++ b ++ [','] ++ path) ++ [')'])
  | background {raw : Text} (hraw : raw.Enclosed) (hshows : raw.Shows) :
    Spelled (.loadBackground (Text.trim (raw.takeWhile (· ≠ ','))))
      ("@loadbg(".toList ++ raw ++ [')'])

/-- What is wrong with a text behind an at sign, and where that is found. -/
inductive Directive.Misspelled (source : Text) (offset : Nat) : Text → ScriptError → Prop
  | unnamed {tail : Text} (htail : ∀ c, tail.head? = some c → c.isAlpha = false) :
    Misspelled source offset tail (Missing.directiveName.errorAt source (offset + 1))
  | unopened {name tail : Text} (hname : name.IsWord)
      (htail : ∀ c, tail.head? = some c → c.isAlpha = false ∧ c ≠ '(') :
    Misspelled source offset (name ++ tail)
      ((Missing.argumentsStart name).errorAt source (offset + 1 + name.length))
  | unclosed {name inner line : Text} (hname : name.IsWord) (hopen : ¬inner.ClosesWith ')')
      (hline : inner.BeginsWithLine line) :
    Misspelled source offset (name ++ '(' :: inner)
      (Missing.argumentsEnd.errorAt source (offset + 1 + name.length + 1 + line.length))
  | unknown {name raw rest : Text} (hname : name.IsWord) (hraw : raw.Enclosed)
      (hjump : name ≠ "jump".toList) (hbackground : name ≠ "loadbg".toList) :
    Misspelled source offset (name ++ '(' :: (raw ++ ')' :: rest))
      (ScriptError.locate { fault := .unknownDirective name } source offset)
  | arity {raw rest : Text} (hraw : raw.Enclosed)
      (hcommas : raw.Shows → raw.count ',' ≠ 0 ∧ raw.count ',' ≠ 2) :
    Misspelled source offset ("jump".toList ++ '(' :: (raw ++ ')' :: rest))
      (ScriptError.locate
        { fault := .invalidArity "jump directive take either 1 or 3 arguments".toList } source
        offset)
  | argument {raw rest : Text} (hraw : raw.Enclosed) (hblank : ¬raw.Shows) :
    Misspelled source offset ("loadbg".toList ++ '(' :: (raw ++ ')' :: rest))
      (ScriptError.locate { fault := .missingArgument 0 "bg path".toList } source offset)

/-! ### Arguments -/

theorem splitArguments_of_blank {raw : Text} (h : ¬raw.Shows) : splitArguments raw = [] := by
  have hall : raw.all Text.isBlank = true := by
    rw [List.all_eq_true]
    intro c hc
    by_contra hb
    exact h ⟨c, hc, by simpa using hb⟩
  rw [splitArguments, if_pos hall]

theorem splitArguments_of_shows {raw : Text} (h : raw.Shows) :
    splitArguments raw = (Text.splitWhere (· == ',') raw).map Text.trim := by
  obtain ⟨c, hc, hb⟩ := h
  have hall : ¬raw.all Text.isBlank = true := by
    intro hall
    rw [List.all_eq_true.1 hall c hc] at hb
    cases hb
  rw [splitArguments, if_neg hall]

/-- The first piece of a split reaches up to the first separator. -/
theorem exists_splitWhere_cons (sep : Char) (t : Text) :
    ∃ pieces, Text.splitWhere (· == sep) t = t.takeWhile (· ≠ sep) :: pieces := by
  induction t with
  | nil => exact ⟨[], rfl⟩
  | cons c r ih =>
    by_cases hc : c = sep
    · exact ⟨Text.splitWhere (· == sep) r, by simp [Text.splitWhere, hc]⟩
    · obtain ⟨pieces, hr⟩ := ih
      exact ⟨pieces, by simp [Text.splitWhere, hc, hr]⟩

/-- Two separators cut a text into three. -/
theorem exists_three_of_count {sep : Char} {t : Text} (h : t.count sep = 2) :
    ∃ a b c : Text, t = a ++ [sep] ++ b ++ [sep] ++ c ∧ ∀ piece ∈ [a, b, c], sep ∉ piece := by
  have hlength : (Text.splitWhere (· == sep) t).length = t.count sep + 1 :=
    Text.length_splitWhere _ t
  obtain ⟨a, b, c, hpieces⟩ := List.length_eq_three.1 (hlength.trans (by rw [h]))
  have hjoin := Text.intercalate_splitWhere sep t
  rw [hpieces] at hjoin
  refine ⟨a, b, c, ?_, ?_⟩
  · rw [← hjoin]
    simp [List.intercalate_cons_cons]
  · intro piece hpiece hmem
    rw [← hpieces] at hpiece
    have hnot := Text.not_of_mem_splitWhere hpiece hmem
    simp at hnot

/-- As many pieces as there are separators, and one more. -/
theorem length_splitArguments {raw : Text} (h : raw.Shows) :
    (splitArguments raw).length = raw.count ',' + 1 := by
  rw [splitArguments_of_shows h, List.length_map, Text.length_splitWhere]
  rfl

theorem DirectiveKind.resolve_name (kind : DirectiveKind) (args : List Text) :
    Directive.resolve kind.name args = kind.resolve args := by
  cases kind <;> rfl

theorem DirectiveKind.isWord_name (kind : DirectiveKind) : IsWord kind.name := by
  constructor
  · cases kind <;> exact List.cons_ne_nil _ _
  · exact isNameLetter_of_mem

theorem resolve_jump_of_length {args : List Text} (hone : args.length ≠ 1)
    (hthree : args.length ≠ 3) :
    DirectiveKind.jump.resolve args =
      .error (.invalidArity "jump directive take either 1 or 3 arguments".toList) := by
  match args with
  | [] => rfl
  | [_] => exact absurd rfl hone
  | [_, _] => rfl
  | [_, _, _] => exact absurd rfl hthree
  | _ :: _ :: _ :: _ :: _ => rfl

theorem resolve_unknown {name : Text} (hjump : name ≠ "jump".toList)
    (hbackground : name ≠ "loadbg".toList) (args : List Text) :
    Directive.resolve name args = .error (.unknownDirective name) := by
  have hj : DirectiveKind.jump.answer? name args = none := if_neg hjump
  have hb : DirectiveKind.loadBackground.answer? name args = none := if_neg hbackground
  simp only [Directive.resolve, DirectiveKind.all, List.findSome?_cons, hj, hb,
    List.findSome?_nil]

/-! ### Spelled directives are read -/

section
variable {source : Text} {offset : Nat}

/-- A call of one of the kinds is read if its arguments suit the kind. -/
theorem parseAt_call (kind : DirectiveKind) {w raw rest : Text} {r : Resolved}
    (hw : w = '@' :: (kind.name ++ '(' :: (raw ++ [')']))) (hraw : raw.Enclosed)
    (hle : offset ≤ source.length) (hhere : source.drop offset = w ++ rest)
    (hresolve : kind.resolve (splitArguments raw) = .ok r) :
    Mark.directive.parseAt source offset =
      .ok ⟨.directive r.directive, offset + w.length, r.ignored⟩ := by
  have hcall : w ++ rest = '@' :: (kind.name ++ '(' :: (raw ++ ')' :: rest)) := by simp [hw]
  have hlength : w.length = kind.name.length + raw.length + 3 := by
    simp [hw]
    omega
  have hname := kind.isWord_name
  have hread := readDirective_call hname.1 hname.2 hraw rest
  rw [kind.resolve_name, hresolve, ← hcall, ← hhere] at hread
  rw [hlength]
  exact parseAt_of_read .directive hle hread

theorem parseAt_call_refused {name raw rest : Text} {fault : Fault} (hname : name.IsWord)
    (hraw : raw.Enclosed)
    (hhere : source.drop offset = '@' :: (name ++ '(' :: (raw ++ ')' :: rest)))
    (hresolve : Directive.resolve name (splitArguments raw) = .error fault) :
    Mark.directive.parseAt source offset =
      .error (ScriptError.locate { fault } source offset) := by
  have hread := readDirective_call hname.1 hname.2 hraw rest
  rw [hresolve, ← hhere] at hread
  exact parseAt_of_refused .directive hread

/-- The arguments between the commas are those that the directive is given, trimmed. -/
theorem splitArguments_of_commas {args : List Text} {raw : Text} (hne : args ≠ [])
    (hraw : [','].intercalate args = raw) (hshows : raw.Shows) (hcomma : ∀ t ∈ args, ',' ∉ t) :
    splitArguments raw = args.map Text.trim := by
  rw [splitArguments_of_shows hshows, ← hraw, Text.splitWhere_intercalate hne hcomma]

theorem Directive.Spelled.parse {d : Directive} {w rest : Text} (h : d.Spelled w)
    (hle : offset ≤ source.length) (hhere : source.drop offset = w ++ rest) :
    ∃ ignored, Mark.directive.parseAt source offset =
      .ok ⟨.directive d, offset + w.length, ignored⟩ := by
  cases h with
  | @jump a ha hcomma hshows =>
    have hargs : splitArguments a = [Text.trim a] :=
      splitArguments_of_commas (List.cons_ne_nil a []) List.intercalate_singleton hshows
        (by simpa using hcomma)
    have hresolve : DirectiveKind.jump.resolve (splitArguments a) =
        .ok ⟨.jump (Text.trim a) none, []⟩ := by
      rw [hargs]
      rfl
    exact ⟨[], parseAt_call .jump (by simp [DirectiveKind.name]) ha hle hhere hresolve⟩
  | @choice a b path ha hb hpath hcomma =>
    have hraw : [','].intercalate [a, b, path] = a ++ [','] ++ b ++ [','] ++ path := by
      simp [List.intercalate_cons_cons]
    have hshows : Shows (a ++ [','] ++ b ++ [','] ++ path) := ⟨',', by simp, by decide⟩
    have hargs := splitArguments_of_commas (by simp) hraw hshows hcomma
    have henclosed : Enclosed (a ++ [','] ++ b ++ [','] ++ path) := by
      have hmark : ∀ c ∈ [','], c ≠ ')' ∧ Text.isLineBreak c = false :=
        List.forall_mem_singleton.2 (by decide)
      simp only [Enclosed, List.forall_mem_append]
      exact ⟨⟨⟨⟨ha, hmark⟩, hb⟩, hmark⟩, hpath⟩
    have hresolve : DirectiveKind.jump.resolve
        (splitArguments (a ++ [','] ++ b ++ [','] ++ path)) =
          .ok ⟨.jump (Text.trim path) (some (Text.trim a, Text.trim b)), []⟩ := by
      rw [hargs]
      rfl
    exact ⟨[], parseAt_call .jump (by simp [DirectiveKind.name]) henclosed hle hhere hresolve⟩
  | @background raw hraw hshows =>
    obtain ⟨pieces, hpieces⟩ := exists_splitWhere_cons ',' raw
    have hresolve : DirectiveKind.loadBackground.resolve (splitArguments raw) =
        .ok ⟨.loadBackground (Text.trim (raw.takeWhile (· ≠ ','))), pieces.map Text.trim⟩ := by
      rw [splitArguments_of_shows hshows, hpieces, List.map_cons]
      rfl
    exact ⟨_, parseAt_call .loadBackground (by simp [DirectiveKind.name]) hraw hle hhere hresolve⟩

theorem readDirective_unnamed {tail : Text} (htail : ∀ c, tail.head? = some c → c.isAlpha = false) :
    readDirective ('@' :: tail) = .error (.missing .directiveName 1) := by
  have hname : tail.takeWhile isNameLetter = [] := by
    cases tail with
    | nil => rfl
    | cons c tail => exact List.takeWhile_cons_of_neg (by simp [isNameLetter, htail c rfl])
  simp only [readDirective_eq, hname, if_true]

/-- A name ends where its letters do. -/
theorem takeWhile_of_word {name tail : Text} (hname : name.IsWord)
    (htail : ∀ c, tail.head? = some c → c.isAlpha = false) :
    (name ++ tail).takeWhile isNameLetter = name ∧
      (name ++ tail).dropWhile isNameLetter = tail := by
  have hpos : ∀ c ∈ name, isNameLetter c = true := hname.2
  rw [List.takeWhile_append_of_pos hpos, List.dropWhile_append_of_pos hpos]
  cases tail with
  | nil => simp
  | cons c tail =>
    have hneg : ¬isNameLetter c = true := by simp [isNameLetter, htail c rfl]
    rw [List.takeWhile_cons_of_neg hneg, List.dropWhile_cons_of_neg hneg, List.append_nil]
    exact ⟨rfl, rfl⟩

theorem readDirective_unopened {name tail : Text} (hname : name.IsWord)
    (htail : ∀ c, tail.head? = some c → c.isAlpha = false ∧ c ≠ '(') :
    readDirective ('@' :: (name ++ tail)) =
      .error (.missing (.argumentsStart name) (name.length + 1)) := by
  obtain ⟨htake, hdrop⟩ := takeWhile_of_word hname fun c hc => (htail c hc).1
  simp only [readDirective_eq, htake, hdrop, if_neg hname.1]
  split
  · rename_i inner
    exact absurd rfl (htail '(' rfl).2
  · rfl

theorem readDirective_unclosed {name inner line : Text} (hname : name.IsWord)
    (hopen : ¬inner.ClosesWith ')') (hline : inner.BeginsWithLine line) :
    readDirective ('@' :: (name ++ '(' :: inner)) =
      .error (.missing .argumentsEnd (name.length + line.length + 2)) := by
  have hparen : ∀ c, ('(' :: inner).head? = some c → c.isAlpha = false := by
    intro c hc
    obtain rfl : '(' = c := Option.some.inj hc
    decide
  obtain ⟨htake, hdrop⟩ := takeWhile_of_word hname hparen
  have hnot : (restOfLine inner).contains ')' = false := by
    rw [Text.closesWith_iff (by decide)] at hopen
    simpa using hopen
  rw [hline.restOfLine_eq] at hnot
  simp only [readDirective_eq, htake, hdrop, if_neg hname.1, readArguments, hline.restOfLine_eq,
    hnot]
  rfl

theorem Directive.Misspelled.parse {after : Text} {e : ScriptError}
    (h : Directive.Misspelled source offset after e) (hle : offset ≤ source.length)
    (hhere : source.drop offset = '@' :: after) :
    Mark.directive.parseAt source offset = .error e := by
  cases h with
  | unnamed htail =>
    have hread := readDirective_unnamed htail
    rw [← hhere] at hread
    exact parseAt_of_missing .directive hle hread
  | @unopened name tail hname htail =>
    have hread := readDirective_unopened hname htail
    rw [← hhere] at hread
    have hparse := parseAt_of_missing .directive hle hread
    rwa [show offset + (name.length + 1) = offset + 1 + name.length by omega] at hparse
  | @unclosed name inner line hname hopen hline =>
    have hread := readDirective_unclosed hname hopen hline
    rw [← hhere] at hread
    have hparse := parseAt_of_missing .directive hle hread
    rwa [show offset + (name.length + line.length + 2) =
      offset + 1 + name.length + 1 + line.length by omega] at hparse
  | unknown hname hraw hjump hbackground =>
    exact parseAt_call_refused hname hraw hhere (resolve_unknown hjump hbackground _)
  | @arity raw rest hraw hcommas =>
    apply parseAt_call_refused DirectiveKind.jump.isWord_name hraw hhere
    by_cases hshows : raw.Shows
    · obtain ⟨hnone, htwo⟩ := hcommas hshows
      have hlength := length_splitArguments hshows
      exact resolve_jump_of_length (by omega) (by omega)
    · rw [splitArguments_of_blank hshows]
      rfl
  | argument hraw hblank =>
    apply parseAt_call_refused DirectiveKind.loadBackground.isWord_name hraw hhere
    rw [splitArguments_of_blank hblank]
    rfl

/-! ### Every text is spelled or misspelled -/

/-- Text in parentheses is an argument list of one of the two directives, or is refused. -/
theorem spelled_or_refused (source : Text) (offset : Nat) {name raw : Text} (hname : name.IsWord)
    (hraw : raw.Enclosed) (rest : Text) :
    (∃ d : Directive, d.Spelled ('@' :: (name ++ '(' :: (raw ++ [')'])))) ∨
      ∃ e, Directive.Misspelled source offset (name ++ '(' :: (raw ++ ')' :: rest)) e := by
  by_cases hjump : name = "jump".toList
  · subst hjump
    by_cases hcommas : raw.Shows → raw.count ',' ≠ 0 ∧ raw.count ',' ≠ 2
    · exact .inr ⟨_, .arity hraw hcommas⟩
    · obtain ⟨hshows, hcount⟩ := Classical.not_imp.1 hcommas
      by_cases hnone : raw.count ',' = 0
      · have hw := Directive.Spelled.jump hraw (List.count_eq_zero.1 hnone) hshows
        exact .inl ⟨_, by simpa using hw⟩
      · have htwo : raw.count ',' = 2 := by
          by_contra hother
          exact hcount ⟨hnone, hother⟩
        obtain ⟨a, b, path, rfl, hfree⟩ := exists_three_of_count htwo
        simp only [Enclosed, List.forall_mem_append] at hraw
        obtain ⟨⟨⟨⟨ha, -⟩, hb⟩, -⟩, hpath⟩ := hraw
        have hw := Directive.Spelled.choice ha hb hpath hfree
        exact .inl ⟨_, by simpa using hw⟩
  · by_cases hbackground : name = "loadbg".toList
    · subst hbackground
      by_cases hshows : raw.Shows
      · have hw := Directive.Spelled.background hraw hshows
        exact .inl ⟨_, by simpa using hw⟩
      · exact .inr ⟨_, .argument hraw hshows⟩
    · exact .inr ⟨_, .unknown hname hraw hjump hbackground⟩

/-- What follows an at sign goes on as one of the written forms, or else something is wrong with
it. No reader is asked. -/
theorem spelled_or_misspelled (source : Text) (offset : Nat) (after : Text) :
    (∃ (d : Directive) (w rest : Text), d.Spelled w ∧ '@' :: after = w ++ rest) ∨
      ∃ e, Directive.Misspelled source offset after e := by
  have hsplit := List.takeWhile_append_dropWhile (p := Char.isAlpha) (l := after)
  have hletters : ∀ c ∈ after.takeWhile Char.isAlpha, c.isAlpha = true :=
    fun c hc => List.mem_takeWhile_imp hc
  have hend : ∀ c, (after.dropWhile Char.isAlpha).head? = some c → c.isAlpha = false := by
    intro c hc
    have hnot := List.head?_dropWhile_not Char.isAlpha after
    rw [hc] at hnot
    exact hnot
  generalize after.takeWhile Char.isAlpha = name at *
  generalize after.dropWhile Char.isAlpha = tail at *
  subst hsplit
  by_cases hne : name = []
  · subst hne
    exact .inr ⟨_, .unnamed hend⟩
  have hname : IsWord name := ⟨hne, hletters⟩
  by_cases hparen : tail.head? = some '('
  · obtain ⟨inner, rfl⟩ := List.head?_eq_some_iff.1 hparen
    by_cases hclosed : ClosesWith inner ')'
    · have hmem := (Text.closesWith_iff (by decide)).1 hclosed
      obtain ⟨raw, rest, rfl, hraw⟩ := exists_closed (List.contains_iff_mem.2 hmem)
      rcases spelled_or_refused source offset hname hraw rest with ⟨d, hd⟩ | hrefused
      · exact .inl ⟨d, _, rest, hd, by simp⟩
      · exact .inr hrefused
    · exact .inr ⟨_, .unclosed hname hclosed (Text.beginsWithLine_restOfLine inner)⟩
  · refine .inr ⟨_, .unopened hname fun c hc => ⟨hend c hc, ?_⟩⟩
    rintro rfl
    exact hparen hc

theorem Directive.Spelled.ne_nil {d : Directive} {w : Text} (h : d.Spelled w) : w ≠ [] := by
  cases h <;> simp

/-- A text between two offsets is written where the first of them is. -/
theorem drop_of_spelled {d : Directive} {stop : Nat} (hstop : stop ≤ source.length)
    (hd : d.Spelled (source.extract offset stop)) :
    source.drop offset = source.extract offset stop ++ source.drop stop ∧
      offset + (source.extract offset stop).length = stop := by
  have hne := hd.ne_nil
  rw [List.extract_eq_take_drop] at hne ⊢
  have hlt : offset < stop := by
    by_contra hge
    rw [Nat.sub_eq_zero_of_le (Nat.le_of_not_lt hge), List.take_zero] at hne
    exact hne rfl
  constructor
  · have hsplit := List.take_append_drop (stop - offset) (source.drop offset)
    rw [List.drop_drop, show offset + (stop - offset) = stop by omega] at hsplit
    exact hsplit.symm
  · rw [List.length_take, List.length_drop]
    omega

theorem extract_of_drop {w rest : Text} (hhere : source.drop offset = w ++ rest) :
    source.extract offset (offset + w.length) = w := by
  rw [List.extract_eq_take_drop, hhere, Nat.add_sub_cancel_left, List.take_left]

/-- What is read at an at sign is a directive, by one of its written forms. -/
theorem spelled_of_parse (h : source[offset]? = some '@') {p : Parsed}
    (hp : Mark.directive.parseAt source offset = .ok p) :
    ∃ (d : Directive) (w rest : Text), p.element = .directive d ∧ d.Spelled w ∧
      source.drop offset = w ++ rest ∧ p.stop = offset + w.length := by
  have hhere := Text.drop_of_getElem? h
  have hle : offset ≤ source.length := Nat.le_of_lt (List.getElem?_eq_some_iff.1 h).1
  rcases spelled_or_misspelled source offset (source.drop (offset + 1)) with
    ⟨d, w, rest, hd, hw⟩ | ⟨e, he⟩
  · rw [← hhere] at hw
    obtain ⟨ignored, hgiven⟩ := hd.parse hle hw
    rw [hp] at hgiven
    obtain rfl := Except.ok.inj hgiven
    exact ⟨d, w, rest, rfl, hd, hw, rfl⟩
  · rw [he.parse hle hhere] at hp
    cases hp

/-- **Directives are exactly the grammar.** At an at sign a directive is read, with the offset where
it ends, just if the text between these offsets is one that the directive is called by; there is
one such end at most. In every other case there is an error, the one that tells what is wrong. -/
theorem directive_grammar (h : source[offset]? = some '@') :
    (∀ (element : Element) (stop : Nat),
      (∃ ignored, Mark.directive.parseAt source offset = .ok ⟨element, stop, ignored⟩) ↔
        stop ≤ source.length ∧
          ∃ d : Directive, element = .directive d ∧ d.Spelled (source.extract offset stop)) ∧
    (∀ (d d' : Directive) (stop stop' : Nat), stop ≤ source.length → stop' ≤ source.length →
      d.Spelled (source.extract offset stop) → d'.Spelled (source.extract offset stop') →
      stop' = stop ∧ d' = d) ∧
    (∀ e, Mark.directive.parseAt source offset = .error e ↔
      Directive.Misspelled source offset (source.drop (offset + 1)) e) := by
  have hhere := Text.drop_of_getElem? h
  have hle : offset ≤ source.length := Nat.le_of_lt (List.getElem?_eq_some_iff.1 h).1
  have hread : ∀ (d : Directive) (stop : Nat), stop ≤ source.length →
      d.Spelled (source.extract offset stop) →
      ∃ ignored, Mark.directive.parseAt source offset = .ok ⟨.directive d, stop, ignored⟩ := by
    intro d stop hstop hd
    obtain ⟨hsplit, hlength⟩ := drop_of_spelled hstop hd
    have hparse := hd.parse hle hsplit
    rwa [hlength] at hparse
  refine ⟨?_, ?_, ?_⟩
  · intro element stop
    constructor
    · rintro ⟨ignored, hparse⟩
      obtain ⟨d, w, rest, helement, hd, hw, hstop⟩ := spelled_of_parse h hparse
      have hlength := congrArg List.length hw
      rw [List.length_drop, List.length_append] at hlength
      simp only at helement hstop
      subst hstop
      refine ⟨by omega, d, helement, ?_⟩
      rwa [extract_of_drop hw]
    · rintro ⟨hstop, d, rfl, hd⟩
      exact hread d stop hstop hd
  · intro d d' stop stop' hstop hstop' hd hd'
    obtain ⟨_, hparse⟩ := hread d stop hstop hd
    obtain ⟨_, hparse'⟩ := hread d' stop' hstop' hd'
    rw [hparse] at hparse'
    cases hparse'
    exact ⟨rfl, rfl⟩
  · intro e
    constructor
    · intro hparse
      rcases spelled_or_misspelled source offset (source.drop (offset + 1)) with
        ⟨d, w, rest, hd, hw⟩ | ⟨e', he'⟩
      · obtain ⟨_, hgiven⟩ := hd.parse hle (hhere.trans hw)
        rw [hparse] at hgiven
        cases hgiven
      · rw [he'.parse hle hhere] at hparse
        obtain rfl := Except.error.inj hparse
        exact he'
    · intro he
      exact he.parse hle hhere

end

/-- A choice with blanks, and a call that the end of the text breaks off. -/
def crossroads : Text := "Then @jump( left ,, park.vn)\n@loadbg(".toList

theorem directive_grammar_crossroads :
    crossroads[5]? = some '@' ∧ crossroads[29]? = some '@' ∧
    (∃ ignored, Mark.directive.parseAt crossroads 5 =
      .ok ⟨.directive (.jump "park.vn".toList (some ("left".toList, []))), 28, ignored⟩) ∧
    Mark.directive.parseAt crossroads 29 =
      .error (Missing.argumentsEnd.errorAt crossroads 37) := by
  have hchoice : Directive.Spelled (.jump "park.vn".toList (some ("left".toList, [])))
      (crossroads.extract 5 28) :=
    @Directive.Spelled.choice " left ".toList [] " park.vn".toList (by decide) (by decide)
      (by decide) (by decide)
  have hopen : ¬ClosesWith [] ')' := by
    rw [Text.closesWith_iff (by decide)]
    decide
  have hcall : Directive.Misspelled crossroads 29 (crossroads.drop 30)
      (Missing.argumentsEnd.errorAt crossroads 37) :=
    .unclosed DirectiveKind.loadBackground.isWord_name hopen (Text.beginsWithLine_restOfLine [])
  have hfirst : crossroads[5]? = some '@' := by decide
  have hlast : crossroads[29]? = some '@' := by decide
  refine ⟨hfirst, hlast, ?_, ?_⟩
  · exact ((directive_grammar hfirst).1 _ 28).2 ⟨by decide, _, rfl, hchoice⟩
  · exact ((directive_grammar hlast).2.2 _).2 hcall

end Playscript
