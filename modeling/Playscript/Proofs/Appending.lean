import Playscript.Proofs.Seeks
import Playscript.Proofs.Joining

/-!
# Appended text

What stands at the end of a script does not change what was read before. An element that ends
before the end of its text has been brought to an end by what stands behind it: a closing bracket,
a parenthesis, a marked line, a line feed. Whatever is appended comes after that, so the element is
the same. Only the last element can reach the end of the text, and become another one.

* `Mark.read_append`: a reading that ends before its text does is the same with more text behind it.
* `Text.scan_append_of_settled`: so is a scan.
* `Text.getElem?_elements_append`: the elements of a stream that are settled.
* `ahead_append`: the elements that a cursor gives.
-/

namespace Playscript

/-! ## Readings -/

/-- A body that is cut off by a mark stays as it is. -/
theorem splitBody_append_of_cut {body : Text} (h : (splitBody body).2 ≠ []) (t : Text) :
    splitBody (body ++ t) = ((splitBody body).1, (splitBody body).2 ++ t) := by
  induction body with
  | nil => exact absurd rfl h
  | cons c body ih =>
    -- there is more of the body, so its first character tells whether its line is marked
    have hends : endsBody (body ++ t) = endsBody body := by
      cases body with
      | nil => simp [splitBody, endsBody] at h
      | cons d body => rw [List.cons_append, endsBody_cons, endsBody_cons]
    rw [List.cons_append, splitBody, splitBody, hends]
    by_cases hcut : c = '\n' ∧ endsBody body = true
    · rw [if_pos hcut, if_pos hcut]
    · rw [splitBody, if_neg hcut] at h
      rw [if_neg hcut, if_neg hcut, ih h]

theorem readDialogue_append {after : Text} {r : Reading} (h : readDialogue ('[' :: after) = .ok r)
    (hlt : r.size < ('[' :: after).length) (t : Text) :
    readDialogue ('[' :: after ++ t) = .ok r := by
  obtain ⟨name, rest, rfl, hname⟩ := exists_speaker h
  rw [readDialogue_closed hname] at h
  obtain rfl := Except.ok.inj h
  -- without a marked line behind it the body would reach up to the end
  have hcut : (splitBody rest).2 ≠ [] := by
    intro hnil
    have hlength := length_splitBody rest
    simp only [hnil, if_true, List.length_nil, List.length_cons, List.length_append]
      at hlt hlength
    omega
  have hlonger : '[' :: (name ++ ']' :: rest) ++ t = '[' :: (name ++ ']' :: (rest ++ t)) := by simp
  have hkept : (splitBody rest).2 ++ t ≠ [] := List.append_ne_nil_of_left_ne_nil hcut t
  rw [hlonger, readDialogue_closed hname, splitBody_append_of_cut hcut, if_neg hkept, if_neg hcut]

/-- A reading that ends before its text does is the same with more text behind it. -/
theorem Mark.read_append {mark : Mark} {after : Text} {r : Reading}
    (h : mark.read (mark.char :: after) = .ok r) (hlt : r.size < (mark.char :: after).length)
    (t : Text) : mark.read (mark.char :: after ++ t) = .ok r := by
  cases mark with
  | dialogue => exact readDialogue_append h hlt t
  | directive => exact readDirective_append h t
  | comment =>
    obtain rfl := Except.ok.inj h
    have hfeed : '\n' ∈ after := by
      by_contra hnone
      rw [Mark.char, readComment_last hnone] at hlt
      exact absurd hlt (Nat.lt_irrefl _)
    exact congrArg Except.ok (readComment_append hfeed t)

/-! ## Scans and streams -/

namespace Text

variable {s : Text} {offset : Nat}

/-- What a scan finds, if it ends before the text does, it finds with more text behind it. -/
theorem scan_append_of_settled {p : Parsed} (h : s.scan offset = .ok (some p))
    (hlt : p.stop < s.length) (t : Text) : (s ++ t).scan offset = .ok (some p) := by
  obtain ⟨mark, r, hmark, hread, rfl⟩ := scan_eq_some_iff.1 h
  have hhere := drop_of_getElem? hmark
  have hlength := congrArg List.length hhere
  rw [List.length_drop] at hlength
  rw [hhere] at hread
  have hsize : r.size < (mark.char :: s.drop (s.nextStart offset + 1)).length := by
    simp only [Reading.startingAt] at hlt
    rw [← hlength]
    omega
  exact scan_append_of_read hmark (Mark.read_append hread hsize t)

/-- The settled elements of a text are elements of every text that it is the beginning of. The
induction is on the place of the element; those before it end earlier, so they are settled too. -/
theorem getElem?_elements_append {n : Nat} {p : Parsed}
    (h : (s.streamFrom offset).elements[n]? = some p) (hlt : p.stop < s.length) (t : Text) :
    (Text.streamFrom (s ++ t) offset).elements[n]? = some p := by
  induction n generalizing offset with
  | zero =>
    rw [← List.head?_eq_getElem?] at h
    obtain ⟨ps, hps⟩ := List.head?_eq_some_iff.1 h
    obtain ⟨hscan, -, -⟩ := scan_of_elements_cons hps
    rw [streamFrom_of_some (scan_append_of_settled hscan hlt t), List.getElem?_cons_zero]
  | succ n ih =>
    cases hps : (s.streamFrom offset).elements with
    | nil => simp [hps] at h
    | cons q qs =>
      obtain ⟨hscan, hrest, -⟩ := scan_of_elements_cons hps
      rw [hps, List.getElem?_cons_succ, ← hrest] at h
      have hq : q.stop < p.stop := lt_stop_of_mem rfl (List.mem_of_getElem? h)
      rw [streamFrom_of_some (scan_append_of_settled hscan (hq.trans hlt) t),
        List.getElem?_cons_succ]
      exact ih h

/-- All elements but the last end before the text does. -/
theorem stop_lt_of_mem_dropLast {ps : List Parsed} (h : (s.streamFrom offset).elements = ps)
    {p : Parsed} (hp : p ∈ ps.dropLast) : p.stop < s.length := by
  induction ps generalizing offset with
  | nil => cases hp
  | cons q ps ih =>
    obtain ⟨-, hrest, -⟩ := scan_of_elements_cons h
    cases ps with
    | nil => cases hp
    | cons next ps =>
      rcases List.mem_cons.1 hp with rfl | hp
      · obtain ⟨hnext, -, -⟩ := scan_of_elements_cons hrest
        have hspan := lt_stop_of_scan hnext
        omega
      · exact ih hrest hp

/-- All elements of a text but the last open every text that it is the beginning of. -/
theorem dropLast_elements_prefix (s t : Text) : s.elements.dropLast <+: (s ++ t).elements := by
  rw [elements, ← List.map_dropLast]
  apply List.IsPrefix.map
  rw [List.prefix_iff_getElem?]
  intro n hn
  have hmem := List.getElem_mem hn
  have hlt := stop_lt_of_mem_dropLast rfl hmem
  rw [List.getElem_dropLast] at hlt ⊢
  exact getElem?_elements_append (List.getElem?_eq_getElem _) hlt t

end Text

/-- **Appended text changes no settled element.** What a cursor on the beginning of a text gives, if
it ends before that beginning does, a cursor on the whole text gives at the same step, and is then
at the same offset. So all the elements of the beginning but the last are the first elements of the
whole. -/
theorem ahead_append (s t : Text) (origin origin' : Option Text) :
    let short := Cursor.ofText s origin
    let long := Cursor.ofText (s ++ t) origin'
    (∀ n e, (short.ahead n).advance.outcome = .ok (some e) →
      (short.ahead (n + 1)).offset < s.length →
      (long.ahead n).advance.outcome = .ok (some e) ∧
        (long.ahead (n + 1)).offset = (short.ahead (n + 1)).offset) ∧
      s.elements.dropLast <+: (s ++ t).elements := by
  intro short long
  refine ⟨fun n e he hlt => ?_, Text.dropLast_elements_prefix s t⟩
  obtain ⟨p, hscan, rfl⟩ := Cursor.exists_scan_of_outcome he
  have hstop : (short.ahead (n + 1)).offset = p.stop := by
    rw [Cursor.ahead_succ, Cursor.advance_of_scan hscan]
  rw [hstop] at hlt ⊢
  have hfound : short.stream.elements[n]? = some p := (Cursor.scan_ahead_iff rfl).1 hscan
  have hkept : long.stream.elements[n]? = some p := Text.getElem?_elements_append hfound hlt t
  have hscan' : (long.ahead n).scan = .ok (some p) := (Cursor.scan_ahead_iff rfl).2 hkept
  rw [Cursor.ahead_succ, Cursor.advance_of_scan hscan']
  exact ⟨rfl, rfl⟩

/-- A speaker whose lines go on, and a directive that is broken off. -/
def firstPage : Text := "# page\n[Ada] good\n@loadbg(a)\n[Bob] hel".toList

def secondPage : Text := "lo\n@jump(b.vn".toList

/-- The first three elements are settled. The last is not, and goes on. -/
theorem ahead_append_page :
    let short := Cursor.ofText firstPage none
    let long := Cursor.ofText (firstPage ++ secondPage) none
    let backdrop := Element.directive (.loadBackground "a".toList)
    (short.ahead 2).advance.outcome = .ok (some backdrop) ∧ (short.ahead 3).offset = 28 ∧
      (long.ahead 2).advance.outcome = .ok (some backdrop) ∧ (long.ahead 3).offset = 28 ∧
      (short.ahead 3).advance.outcome = .ok (some (.dialogue "Bob".toList "hel".toList)) ∧
      (long.ahead 3).advance.outcome = .ok (some (.dialogue "Bob".toList "hello".toList)) := by
  intro short long backdrop
  have hgiven : (short.ahead 2).advance.outcome = .ok (some backdrop) := by decide +kernel
  have hoffset : (short.ahead 3).offset = 28 := by decide +kernel
  have hsettled : (short.ahead 3).offset < firstPage.length := by decide +kernel
  obtain ⟨hsame, hend⟩ := (ahead_append firstPage secondPage none none).1 2 backdrop hgiven hsettled
  exact ⟨hgiven, hoffset, hsame, hend.trans hoffset, by decide +kernel, by decide +kernel⟩

end Playscript
