import Playscript.Proofs.Joining
import Playscript.Proofs.PrintedPlaces

/-!
# Line addresses

A position is an address: so many lines further down, and so many characters into a line. The
address leads back to the offset that has the position, and every address that is on a line is the
position of one offset. A later offset has a position on a later line, or further along the same
one.

* `Text.lines_append`: the lines of a text around a place in it.
* `Text.exists_line`: the position of an offset is on a line, and addresses the offset.
* `Text.positionOf_address`: a position on a line is that of its address.
* `Position.address_lt_of_before`: addresses are in the order of the positions.
* `positions_address_lines`: positions and addresses undo each other.
-/

namespace Playscript

/-- How far lines reach: the sum of their lengths, with a line feed behind each. -/
def reach : List Text → Nat
  | [] => 0
  | line :: lines => line.length + 1 + reach lines

namespace Position

/-- A position is on a line: at one of its characters, or just past the last. -/
structure On (p : Position) (lines : List Text) (line : Text) : Prop where
  number : 1 ≤ p.line ∧ p.line ≤ lines.length
  found : lines[p.line - 1]? = some line
  column : 1 ≤ p.column ∧ p.column ≤ line.length + 1

/-- Where a position is, counted along the lines: past those above it, and into its own. -/
def address (p : Position) (lines : List Text) : Nat :=
  reach (lines.take (p.line - 1)) + (p.column - 1)

/-- On a line above, or further to the left on the same line. -/
def Before (p q : Position) : Prop := p.line < q.line ∨ p.line = q.line ∧ p.column < q.column

theorem before_trichotomy (p q : Position) : p.Before q ∨ p = q ∨ q.Before p := by
  obtain ⟨line, column⟩ := p
  obtain ⟨line', column'⟩ := q
  simp only [Before, mk.injEq]
  omega

end Position

/-! ## How far lines reach -/

theorem reach_nil : reach [] = 0 := rfl

theorem reach_cons (line : Text) (ls : List Text) :
    reach (line :: ls) = line.length + 1 + reach ls := rfl

theorem reach_append (ls ls' : List Text) : reach (ls ++ ls') = reach ls + reach ls' := by
  induction ls with
  | nil => rw [List.nil_append, reach_nil, Nat.zero_add]
  | cons line ls ih =>
    rw [List.cons_append, reach_cons, reach_cons, ih]
    omega

theorem reach_take_succ {ls : List Text} {n : Nat} {line : Text} (h : ls[n]? = some line) :
    reach (ls.take (n + 1)) = reach (ls.take n) + (line.length + 1) := by
  rw [List.take_add_one, h, reach_append, Option.toList_some, reach_cons]
  rfl

theorem reach_take_le (ls : List Text) {m n : Nat} (h : m ≤ n) :
    reach (ls.take m) ≤ reach (ls.take n) := by
  obtain ⟨k, rfl⟩ := Nat.exists_eq_add_of_le h
  rw [List.take_add, reach_append]
  exact Nat.le_add_right ..

namespace Position

variable {lines : List Text} {p q : Position} {line line' : Text}

/-- A position is before the end of its line, counting the line feed. -/
theorem On.address_lt (h : p.On lines line) : p.address lines < reach (lines.take p.line) := by
  obtain ⟨hnumber, -⟩ := h.number
  obtain ⟨hcolumn, hwithin⟩ := h.column
  have hline := reach_take_succ h.found
  rw [Nat.sub_add_cancel hnumber] at hline
  rw [hline, address]
  omega

/-- Addresses are in the order of the positions. -/
theorem address_lt_of_before (hp : p.On lines line) (h : p.Before q) :
    p.address lines < q.address lines := by
  rcases h with hline | ⟨hline, hcolumn⟩
  · calc p.address lines
        < reach (lines.take p.line) := hp.address_lt
      _ ≤ reach (lines.take (q.line - 1)) := reach_take_le lines (by omega)
      _ ≤ q.address lines := Nat.le_add_right ..
  · have hfirst := hp.column.1
    rw [address, address, hline]
    omega

theorem address_lt_iff (hp : p.On lines line) (hq : q.On lines line') :
    p.address lines < q.address lines ↔ p.Before q := by
  constructor
  · intro hlt
    rcases before_trichotomy p q with hbefore | rfl | hafter
    · exact hbefore
    · exact absurd hlt (Nat.lt_irrefl _)
    · have hgt := address_lt_of_before hq hafter
      omega
  · exact address_lt_of_before hp

theorem eq_of_address_eq (hp : p.On lines line) (hq : q.On lines line')
    (h : p.address lines = q.address lines) : p = q := by
  rcases before_trichotomy p q with hbefore | heq | hafter
  · have hlt := address_lt_of_before hp hbefore
    omega
  · exact heq
  · have hgt := address_lt_of_before hq hafter
    omega

end Position

/-! ## The lines of a text -/

namespace Text

/-- The lines of a text, without the line feeds between them. -/
def lines (t : Text) : List Text := splitWhere (· == '\n') t

theorem lines_feed (t : Text) : lines ('\n' :: t) = [] :: lines t := rfl

theorem lines_cons {c : Char} (hc : c ≠ '\n') {t first : Text} {rest : List Text}
    (h : lines t = first :: rest) : lines (c :: t) = (c :: first) :: rest := by
  obtain ⟨piece, pieces, hpieces, hcons⟩ :=
    splitWhere_cons_of_not (p := (· == '\n')) (beq_eq_false_iff_ne.2 hc) t
  obtain ⟨rfl, rfl⟩ := List.cons.inj (h.symm.trans hpieces)
  exact hcons

theorem reach_lines (t : Text) : reach t.lines = t.length + 1 := by
  induction t with
  | nil => rfl
  | cons c r ih =>
    by_cases hc : c = '\n'
    · subst hc
      rw [lines_feed, reach_cons, ih]
      simp only [List.length_nil, List.length_cons]
      omega
    · cases hr : lines r with
      | nil => exact absurd hr (splitWhere_ne_nil _ r)
      | cons first rest =>
        rw [lines_cons hc hr, reach_cons]
        rw [hr, reach_cons] at ih
        simp only [List.length_cons]
        omega

theorem lastLine_of_not_mem {t : Text} (h : '\n' ∉ t) : lastLine t = t := lastLine_append h []

theorem lastLine_cons_of_mem {t : Text} (h : '\n' ∈ t) (c : Char) :
    lastLine (c :: t) = lastLine t := by
  obtain ⟨above, below, rfl⟩ := List.append_of_mem h
  rw [← List.cons_append, lastLine_seam, lastLine_seam]

/-- Around a place in a text there are the lines above it, the line that it is on, and those below.
The induction is on what stands before the place. -/
theorem lines_append (before after : Text) :
    ∃ above below, lines (before ++ after) =
        above ++ (lastLine before ++ after.takeWhile (· ≠ '\n')) :: below ∧
      above.length = before.count '\n' ∧
      reach above + (lastLine before).length = before.length := by
  induction before with
  | nil =>
    obtain ⟨below, hlines⟩ := exists_splitWhere_cons '\n' after
    exact ⟨[], below, hlines, rfl, rfl⟩
  | cons c before ih =>
    obtain ⟨above, below, hlines, hcount, hreach⟩ := ih
    by_cases hc : c = '\n'
    · subst hc
      have hlast : lastLine ('\n' :: before) = lastLine before := lastLine_seam [] before
      refine ⟨[] :: above, below, ?_, ?_, ?_⟩
      · rw [List.cons_append, lines_feed, hlines, hlast, List.cons_append]
      · rw [List.length_cons, hcount, List.count_cons_self]
      · rw [hlast, reach_cons, List.length_cons, List.length_nil]
        omega
    · have hsame : (c :: before).count '\n' = before.count '\n' := List.count_cons_of_ne hc
      cases above with
      | nil =>
        -- no line feed yet: what stands before the place is all on its line
        have hfeed : '\n' ∉ before := List.count_eq_zero.1 hcount.symm
        have hlast : lastLine (c :: before) = c :: before :=
          lastLine_of_not_mem (List.not_mem_cons_of_ne_of_not_mem (Ne.symm hc) hfeed)
        refine ⟨[], below, ?_, hsame ▸ hcount, ?_⟩
        · rw [lastLine_of_not_mem hfeed] at hlines
          rw [hlast]
          exact lines_cons hc hlines
        · rw [hlast, reach_nil, Nat.zero_add]
      | cons first above =>
        have hfeed : '\n' ∈ before := by
          rw [← List.count_pos_iff, ← hcount]
          exact Nat.succ_pos _
        refine ⟨(c :: first) :: above, below, ?_, ?_, ?_⟩
        · rw [lastLine_cons_of_mem hfeed]
          exact lines_cons hc hlines
        · rw [hsame, ← hcount]
          rfl
        · rw [lastLine_cons_of_mem hfeed, reach_cons, List.length_cons, List.length_cons]
          rw [reach_cons] at hreach
          omega

/-- From a place in a text one sees the line that its position is on, and the position leads back to
it. -/
theorem exists_line {t : Text} {offset : Nat} (h : offset ≤ t.length) :
    ∃ line, (t.positionOf offset).On t.lines line ∧
      (t.positionOf offset).address t.lines = offset ∧
      t.lineAt offset = dropTrailing (· == '\r') line := by
  obtain ⟨before, after, rfl, rfl⟩ : ∃ before after, t = before ++ after ∧ before.length = offset :=
    ⟨t.take offset, t.drop offset, (List.take_append_drop offset t).symm,
      by rw [List.length_take, Nat.min_eq_left h]⟩
  obtain ⟨above, below, hlines, hcount, hreach⟩ := lines_append before after
  rw [positionOf_append, lineAt_append]
  refine ⟨_, ?_, ?_, rfl⟩
  · constructor
    case number =>
      simp only [endPosition, hlines, List.length_append, List.length_cons, hcount]
      omega
    case found =>
      rw [endPosition, hlines, Nat.add_sub_cancel, ← hcount,
        List.getElem?_append_right (Nat.le_refl _), Nat.sub_self, List.getElem?_cons_zero]
    case column =>
      simp only [endPosition, List.length_append]
      omega
  · rw [Position.address, endPosition, hlines, Nat.add_sub_cancel, Nat.add_sub_cancel, ← hcount,
      List.take_left, hreach]

theorem address_le_length {t : Text} {p : Position} {line : Text} (h : p.On t.lines line) :
    p.address t.lines ≤ t.length := by
  have hlt : p.address t.lines < t.length + 1 := by
    calc p.address t.lines
        < reach (t.lines.take p.line) := h.address_lt
      _ ≤ reach (t.lines.take t.lines.length) := reach_take_le t.lines h.number.2
      _ = t.length + 1 := by rw [List.take_length, reach_lines]
  omega

/-- A position on a line is that of the offset which it addresses. -/
theorem positionOf_address {t : Text} {p : Position} {line : Text} (h : p.On t.lines line) :
    t.positionOf (p.address t.lines) = p := by
  obtain ⟨line', hon, haddress, -⟩ := exists_line (address_le_length h)
  exact Position.eq_of_address_eq hon h haddress

/-- Places depend on the nearest offset of the text alone. -/
theorem places_congr {t : Text} {offset offset' : Int} (h : t.clamp offset = t.clamp offset') :
    t.positionOf offset = t.positionOf offset' ∧ t.lineAt offset = t.lineAt offset' := by
  simp only [positionOf, lineAt, h, and_self]

end Text

/-- **Positions address the lines of a text.** The text is its lines with line feeds between them.
The position of an offset is on one of the lines, the one that is seen from the offset, and leads
back to it. Every position that is on a line is had by the offset it leads to, so positions tell
offsets apart and are in the same order. An offset beside the text has the place of the nearest end
of the text. -/
theorem positions_address_lines (t : Text) :
    (['\n'].intercalate t.lines = t ∧ ∀ line ∈ t.lines, '\n' ∉ line) ∧
    (∀ offset : Nat, offset ≤ t.length →
      ∃ line, (t.positionOf offset).On t.lines line ∧
        (t.positionOf offset).address t.lines = offset ∧
        t.lineAt offset = Text.dropTrailing (· == '\r') line) ∧
    (∀ p line, p.On t.lines line →
      p.address t.lines ≤ t.length ∧ t.positionOf (p.address t.lines) = p) ∧
    (∀ m n : Nat, m ≤ t.length → n ≤ t.length →
      (t.positionOf m = t.positionOf n → m = n) ∧
        ((t.positionOf m).Before (t.positionOf n) ↔ m < n)) ∧
    ∀ offset : Int,
      (offset < 0 →
        t.positionOf offset = t.positionOf 0 ∧ t.lineAt offset = t.lineAt 0) ∧
      (t.length < offset →
        t.positionOf offset = t.positionOf t.length ∧ t.lineAt offset = t.lineAt t.length) := by
  refine ⟨⟨Text.intercalate_splitWhere '\n' t, ?_⟩, fun offset => Text.exists_line,
    fun p line h => ⟨Text.address_le_length h, Text.positionOf_address h⟩, ?_, ?_⟩
  · intro line hline hfeed
    have hkept := Text.not_of_mem_splitWhere hline hfeed
    exact absurd hkept (by decide)
  · intro m n hm hn
    obtain ⟨line, hon, haddress, -⟩ := Text.exists_line hm
    obtain ⟨line', hon', haddress', -⟩ := Text.exists_line hn
    have horder := Position.address_lt_iff hon hon'
    rw [haddress, haddress'] at horder
    exact ⟨Text.positionOf_injective hm hn, horder.symm⟩
  · intro offset
    constructor
    · intro hneg
      apply Text.places_congr
      simp only [Text.clamp]
      omega
    · intro hpast
      apply Text.places_congr
      simp only [Text.clamp]
      omega

/-- An empty line between two others, of which the last ends in a carriage return. -/
def stanza : Text := "ab\n\ncd\r\n".toList

/-- The line feed of the empty line, and the place behind the last one. -/
theorem positions_address_lines_stanza :
    stanza.lines = ["ab".toList, [], "cd\r".toList, []] ∧
      stanza.positionOf ((3 : Nat) : Int) = ⟨2, 1⟩ ∧ stanza.positionOf ((8 : Nat) : Int) = ⟨4, 1⟩ ∧
      (Position.mk 2 1).address stanza.lines = 3 ∧ (Position.mk 4 1).address stanza.lines = 8 ∧
      stanza.lineAt ((6 : Nat) : Int) = "cd".toList ∧ stanza.positionOf 100 = ⟨4, 1⟩ := by
  have hthird : stanza.positionOf ((3 : Nat) : Int) = ⟨2, 1⟩ := by decide
  have hlast : stanza.positionOf ((8 : Nat) : Int) = ⟨4, 1⟩ := by decide
  obtain ⟨-, hplaces, -, -, hbeside⟩ := positions_address_lines stanza
  obtain ⟨-, -, haddress, -⟩ := hplaces 3 (by decide)
  obtain ⟨-, -, haddress', -⟩ := hplaces 8 (by decide)
  rw [hthird] at haddress
  rw [hlast] at haddress'
  refine ⟨by decide, hthird, hlast, haddress, haddress', by decide, ?_⟩
  exact ((hbeside 100).2 (by decide)).1.trans hlast

end Playscript
