import Playscript.Proofs.Shapes

/-!
# Argument lists

What raw text can be split into: arguments without a blank at their ends and without a comma. All
lists of such arguments come back from their join, but for a single empty argument: its join is
blank, and blank text holds no argument.

* `argumentList_splitArguments`: what is split is such a list.
* `ArgumentList.splitArguments_join`: such a list is what its join is split into.
* `argument_lists_rejoined`: both, and how many arguments there are.
-/

namespace Playscript

open Text (Flush Shows trim)

/-- The lists that arguments come in. -/
structure ArgumentList (args : List Text) : Prop where
  flush : ∀ a ∈ args, a.Flush
  comma : ∀ a ∈ args, ',' ∉ a
  ne_empty : args ≠ [[]]

/-- A text is cut at each of its commas, and nowhere else. -/
structure CutAtCommas (raw : Text) (pieces : List Text) : Prop where
  join : [','].intercalate pieces = raw
  comma : ∀ piece ∈ pieces, ',' ∉ piece
  length : pieces.length = raw.count ',' + 1

theorem exists_cutAtCommas (raw : Text) : ∃ pieces, CutAtCommas raw pieces := by
  refine ⟨Text.splitWhere (· == ',') raw, Text.intercalate_splitWhere ',' raw, ?_,
    Text.length_splitWhere (· == ',') raw⟩
  intro piece hpiece hmem
  have hkept := Text.not_of_mem_splitWhere hpiece hmem
  exact absurd hkept (by decide)

namespace CutAtCommas

variable {raw : Text} {pieces : List Text}

theorem ne_nil (h : CutAtCommas raw pieces) : pieces ≠ [] := by
  rintro rfl
  have := h.length
  simp at this

/-- Text that shows something is split into its pieces, trimmed. -/
theorem splitArguments_eq (h : CutAtCommas raw pieces) (hshows : raw.Shows) :
    splitArguments raw = pieces.map trim :=
  splitArguments_of_commas h.ne_nil h.join hshows h.comma

/-- A single piece is all of its text, so it is not blank where the text is not. -/
theorem map_trim_ne (h : CutAtCommas raw pieces) (hshows : raw.Shows) :
    pieces.map trim ≠ [[]] := by
  intro hone
  obtain ⟨piece, rfl, hpiece⟩ := List.map_eq_singleton_iff.1 hone
  have hraw : piece = raw := List.intercalate_singleton.symm.trans h.join
  rw [hraw] at hpiece
  exact Text.trim_ne_nil hshows hpiece

theorem argumentList (h : CutAtCommas raw pieces) (hshows : raw.Shows) :
    ArgumentList (pieces.map trim) := by
  constructor
  · intro a ha
    obtain ⟨piece, -, rfl⟩ := List.mem_map.1 ha
    exact Text.flush_trim piece
  · intro a ha hmem
    obtain ⟨piece, hpiece, rfl⟩ := List.mem_map.1 ha
    exact h.comma piece hpiece (Text.mem_of_mem_trim hmem)
  · exact h.map_trim_ne hshows

end CutAtCommas

theorem argumentList_nil : ArgumentList [] where
  flush := by simp
  comma := by simp
  ne_empty := by simp

theorem argumentList_splitArguments (raw : Text) : ArgumentList (splitArguments raw) := by
  by_cases hshows : raw.Shows
  · obtain ⟨pieces, hpieces⟩ := exists_cutAtCommas raw
    rw [hpieces.splitArguments_eq hshows]
    exact hpieces.argumentList hshows
  · rw [splitArguments_of_blank hshows]
    exact argumentList_nil

theorem ArgumentList.splitArguments_join {args : List Text} (h : ArgumentList args) :
    splitArguments ([','].intercalate args) = args :=
  splitArguments_intercalate h.ne_empty (fun a ha => Text.trim_of_flush (h.flush a ha))
    h.comma

/-- **Splitting and joining arguments undo each other.** A list of arguments comes back from its
join. What a raw text is split into is such a list, so it comes back from its join as well; and no
list but these is ever split off. Blank text holds no argument. Any other one holds as many as it
has commas, and one more: its pieces between the commas, each of them trimmed. -/
theorem argument_lists_rejoined :
    (∀ args, ArgumentList args → splitArguments ([','].intercalate args) = args) ∧
    (∀ raw : Text,
      ArgumentList (splitArguments raw) ∧
      splitArguments ([','].intercalate (splitArguments raw)) = splitArguments raw ∧
      (¬raw.Shows → (splitArguments raw).length = 0) ∧
      (raw.Shows → (splitArguments raw).length = raw.count ',' + 1 ∧
        ∃ pieces, CutAtCommas raw pieces ∧ splitArguments raw = pieces.map trim)) ∧
    ∀ args, (∃ raw, splitArguments raw = args) ↔ ArgumentList args := by
  refine ⟨fun args h => h.splitArguments_join, fun raw => ⟨?_, ?_, ?_, ?_⟩, fun args => ?_⟩
  · exact argumentList_splitArguments raw
  · exact (argumentList_splitArguments raw).splitArguments_join
  · intro hblank
    rw [splitArguments_of_blank hblank, List.length_nil]
  · intro hshows
    obtain ⟨pieces, hpieces⟩ := exists_cutAtCommas raw
    exact ⟨length_splitArguments hshows, pieces, hpieces, hpieces.splitArguments_eq hshows⟩
  · constructor
    · rintro ⟨raw, rfl⟩
      exact argumentList_splitArguments raw
    · intro h
      exact ⟨_, h.splitArguments_join⟩

/-- Empty arguments at both ends, and a wide blank. -/
def turnings : Text := " , left lane\u3000,".toList

theorem argument_lists_rejoined_turnings :
    let args : List Text := [[], "left lane".toList, []]
    splitArguments turnings = args ∧ ArgumentList args ∧
      splitArguments ",left lane,".toList = args ∧ turnings.Shows ∧
      args.length = turnings.count ',' + 1 := by
  intro args
  have hsplit : splitArguments turnings = args := by decide +kernel
  have hshows : turnings.Shows := ⟨',', by decide, by decide⟩
  obtain ⟨hjoined, hraw, -⟩ := argument_lists_rejoined
  obtain ⟨hlist, -, -, hcount⟩ := hraw turnings
  rw [hsplit] at hlist hcount
  exact ⟨hsplit, hlist, hjoined args hlist, hshows, (hcount hshows).1⟩

end Playscript
