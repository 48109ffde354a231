import Playscript.Proofs.BareReadings
import Playscript.Proofs.Stream

/-!
# Line ends

A script whose lines end with a carriage return and a line feed is the same script with line feeds
alone. Both give the same elements, and the same errors at the same lines and columns; only offsets
differ. An offset of the one text stands for the length of what the other holds up to there.

* `endPosition_bare`, `lineAt_bare`: places in the two texts.
* `toError_bare`, `scan_bare`: errors and scans.
* `Mirrors.advance`: one step of two cursors, one on each text.
* `ahead_withFeeds`: all their steps.
-/

namespace Playscript

open Text (bare Linked Paired withFeeds)

/-! ## Places -/

namespace Text

theorem bare_reverse (t : Text) : bare t.reverse = (bare t).reverse := List.filter_reverse ..

theorem exists_lastLine (t : Text) : ∃ front, t = front ++ lastLine t ∧ '\n' ∉ lastLine t := by
  have hsplit := List.takeWhile_append_dropWhile (p := (· ≠ '\n')) (l := t.reverse)
  refine ⟨(t.reverse.dropWhile (· ≠ '\n')).reverse, ?_, ?_⟩
  · rw [lastLine, ← List.reverse_append, hsplit, List.reverse_reverse]
  · rw [lastLine, List.mem_reverse]
    exact not_mem_takeWhile (by decide) _

theorem lastLine_bare (t : Text) : lastLine (bare t) = bare (lastLine t) := by
  rw [lastLine, ← bare_reverse, (takeWhile_bare_of_pos (by decide) _).1, ← bare_reverse, lastLine]

/-- Carriage returns do not shift a place that none of them stands right before. -/
theorem endPosition_bare {t : Text} (h : Paired t) : endPosition (bare t) = endPosition t := by
  obtain ⟨front, hsplit, hfeed⟩ := exists_lastLine t
  have hplain : '\r' ∉ lastLine t := Paired.not_mem_of_no_feed (hsplit ▸ h).right hfeed
  have hcount : (bare t).count '\n' = t.count '\n' := List.count_filter (by decide)
  rw [endPosition, hcount, lastLine_bare, bare_of_not_mem hplain, endPosition]

theorem dropTrailing_of_not_mem {t : Text} (h : '\r' ∉ t) : dropTrailing (· == '\r') t = t := by
  have hkeep : t.reverse.dropWhile (· == '\r') = t.reverse := by
    rw [List.dropWhile_eq_self_iff]
    intro hl hc
    have hmem := List.getElem_mem hl
    rw [eq_of_beq hc, List.mem_reverse] at hmem
    exact h hmem
  rw [dropTrailing, hkeep, List.reverse_reverse]

theorem positionOf_append (before after : Text) :
    positionOf (before ++ after) before.length = endPosition before := by
  simp [positionOf]

theorem lineAt_append (before after : Text) :
    lineAt (before ++ after) before.length =
      dropTrailing (· == '\r') (lastLine before ++ after.takeWhile (· ≠ '\n')) := by
  simp [lineAt]

/-- The line around a place is the same. -/
theorem lineAt_bare {before after : Text} (h : Paired (before ++ after)) :
    lineAt (bare before ++ bare after) (bare before).length =
      lineAt (before ++ after) before.length := by
  obtain ⟨front, hsplit, hfeed⟩ := exists_lastLine before
  have hafter := List.takeWhile_append_dropWhile (p := (· ≠ '\n')) (l := after)
  rw [lineAt_append, lineAt_append, lastLine_bare, (takeWhile_bare_of_pos (by decide) _).1,
    ← bare_append]
  -- The line of the one text may end in a return, which is trimmed; that of the other has none.
  have hline : Linked (lastLine before ++ after.takeWhile (· ≠ '\n')) := by
    have hlinked := h.linked
    rw [hsplit, ← hafter, List.append_assoc, ← List.append_assoc (lastLine before)] at hlinked
    exact hlinked.right.left
  have hone : '\n' ∉ lastLine before ++ after.takeWhile (· ≠ '\n') := by
    rw [List.mem_append, not_or]
    exact ⟨hfeed, not_mem_takeWhile (by decide) after⟩
  generalize lastLine before ++ after.takeWhile (· ≠ '\n') = line at hline hone ⊢
  rw [dropTrailing_of_not_mem (not_mem_bare line)]
  rcases hline.cases_of_no_feed hone with hplain | ⟨content, rfl, hplain⟩
  · rw [bare_of_not_mem hplain, dropTrailing_of_not_mem hplain]
  · have hdrop : dropTrailing (· == '\r') (content ++ ['\r']) =
        dropTrailing (· == '\r') content := by simp [dropTrailing]
    rw [hdrop, dropTrailing_of_not_mem hplain, bare_append, bare_of_not_mem hplain]
    simp

end Text

/-! ## Errors -/

/-- The fault without the offset at which an element is malformed. -/
def Fault.sansOffset : Fault → Fault
  | .malformed _ expected note => .malformed 0 expected note
  | fault => fault

/-- All of an error but the offset at which an element is malformed. -/
def ScriptError.sansOffset (e : ScriptError) : ScriptError := { e with fault := e.fault.sansOffset }

/-- Errors that are found at the same place and have the same fault are the same. -/
theorem locate_bare {before after : Text} (h : Paired (before ++ after)) (hb : Paired before)
    (f f' : Fault) (hf : f'.sansOffset = f.sansOffset) :
    (ScriptError.locate { fault := f' } (bare (before ++ after)) (bare before).length).sansOffset
      = (ScriptError.locate { fault := f } (before ++ after) before.length).sansOffset := by
  simp only [ScriptError.locate, ScriptError.sansOffset, hf, Text.bare_append,
    Text.positionOf_append, Text.endPosition_bare hb, Text.lineAt_bare h]

theorem toError_missing {source : Text} {offset : Nat} (h : offset ≤ source.length)
    (what : Missing) (reach : Nat) :
    (Defect.missing what reach).toError source offset =
      ScriptError.locate { fault := .malformed ↑(offset + reach) what.expected what.note } source
        ↑(offset + reach) := by
  cases what <;> simp [Defect.toError, Nat.min_eq_left h]

/-- Defects in the same way are reported at the same line and column. -/
theorem toError_bare {before here : Text} (h : Paired (before ++ here)) (hb : Paired before)
    {d d' : Defect} (hd : SameReading here (.error d) (.error d')) :
    (d'.toError (bare (before ++ here)) (bare before).length).sansOffset =
      (d.toError (before ++ here) before.length).sansOffset := by
  cases hd with
  | refused fault => exact locate_bare h hb _ _ rfl
  | @missing consumed rest reach hsplit hplain hreach what =>
    subst hsplit hreach
    have hreached : Paired (before ++ consumed) := hb.append (Text.paired_of_not_mem hplain)
    have hbare : bare (before ++ consumed) = bare before ++ consumed := by
      rw [Text.bare_append, Text.bare_of_not_mem hplain]
    have hle : (bare before).length ≤ (bare (before ++ (consumed ++ rest))).length := by
      rw [Text.bare_append, List.length_append]
      omega
    rw [← List.append_assoc] at h hle ⊢
    rw [toError_missing hle, toError_missing (by simp), ← List.length_append,
      ← List.length_append, ← hbare]
    exact locate_bare h hreached _ _ rfl

/-! ## Scans -/

/-- What a scan makes of a reading at a start. -/
def scanOf (source : Text) (start : Nat) :
    Except Defect Reading → Except ScriptError (Option Parsed)
  | .ok r => .ok (some (r.startingAt start))
  | .error d => .error (d.toError source start)

/-- What a scan gives, in terms of what it passes over first. -/
theorem Text.scan_append (before after : Text) :
    (before ++ after).scan before.length =
      let here := after.dropWhile isBlank
      let start := before ++ after.takeWhile isBlank
      match here.head?.bind Mark.ofChar? with
      | none => .ok none
      | some mark => scanOf (before ++ after) start.length (mark.read here) := by
  simp only [scan, List.drop_left, drop_takeWhile, List.length_append]
  rfl

/-- How scans of the two texts are related: they find nothing, or the same element at places that
stand for each other, or the same error. -/
inductive SameScan (source : Text) :
    Except ScriptError (Option Parsed) → Except ScriptError (Option Parsed) → Prop
  | nothing : SameScan source (.ok none) (.ok none)
  | element {consumed rest : Text} (hsplit : source = consumed ++ rest) (hpaired : Paired consumed)
      (element : Element) (ignored : List Text) :
      SameScan source (.ok (some ⟨element, consumed.length, ignored⟩))
        (.ok (some ⟨element, (bare consumed).length, ignored⟩))
  | error {e e' : ScriptError} (h : e'.sansOffset = e.sansOffset) :
      SameScan source (.error e) (.error e')

/-- Readings that are related make scans that are related. -/
theorem SameReading.scan {start here : Text} {x y : Except Defect Reading}
    (hread : SameReading here x y) (h : Paired (start ++ here)) (hstart : Paired start) :
    SameScan (start ++ here) (scanOf (start ++ here) start.length x)
      (scanOf (bare (start ++ here)) (bare start).length y) := by
  cases x with
  | error d =>
    cases y with
    | error d' => exact .error (toError_bare h hstart hread)
    | ok r' => cases hread
  | ok r =>
    cases hread with
    | @read consumed rest size size' hsplit hpaired hsize hsize' element ignored =>
      subst hsplit hsize hsize'
      simp only [scanOf, Reading.startingAt]
      have hwhole : start ++ (consumed ++ rest) = start ++ consumed ++ rest := by simp
      have helement := SameScan.element hwhole (hstart.append hpaired) element ignored
      rwa [Text.bare_append, List.length_append, List.length_append] at helement

theorem scan_bare {before after : Text} (h : Paired (before ++ after)) :
    SameScan (before ++ after) ((before ++ after).scan before.length)
      ((bare (before ++ after)).scan (bare before).length) := by
  obtain ⟨hgap, hhere⟩ := Text.takeWhile_bare_of_pos (p := Text.isBlank) rfl after
  have hsplit := List.takeWhile_append_dropWhile (p := Text.isBlank) (l := after)
  have hhead := List.head?_dropWhile_not Text.isBlank after
  rw [Text.bare_append, Text.scan_append, Text.scan_append]
  simp only [hgap, hhere, ← Text.bare_append]
  generalize after.takeWhile Text.isBlank = gap at *
  generalize after.dropWhile Text.isBlank = here at *
  subst hsplit
  rw [← List.append_assoc] at h ⊢
  -- The blanks are passed over whole, so the start does not fall between a return and its feed.
  have hstart : Paired (before ++ gap) := by
    refine h.left fun hfeed => ?_
    rw [hfeed] at hhead
    exact absurd hhead (by decide)
  generalize before ++ gap = start at *
  cases here with
  | nil => exact .nothing
  | cons c r =>
    have hblank : Text.isBlank c = false := hhead
    have hc : c ≠ '\r' := by
      rintro rfl
      exact absurd hblank (by decide)
    simp only [Text.bare_append start, Text.bare_cons_of_ne hc, List.head?_cons, Option.bind_some]
    cases hmark : Mark.ofChar? c with
    | none => exact .nothing
    | some mark =>
      obtain rfl := (Mark.ofChar?_eq_some_iff c mark).1 hmark
      have hscan := (Mark.read_bare h.right).scan h hstart
      rw [Text.bare_append, Text.bare_cons_of_ne hc] at hscan
      exact hscan

/-! ## Cursors -/

/-- What a step of a cursor gives, but for the offset in its error. -/
def sansOffset (o : Except ScriptError (Option Element)) : Except ScriptError (Option Element) :=
  o.mapError ScriptError.sansOffset

/-- A cursor, between the two halves of its text, and a cursor at the same place of the text without
carriage returns. -/
structure Mirrors (before after : Text) (c c' : Cursor) : Prop where
  text : c.text = before ++ after
  offset : c.offset = before.length
  paired : Paired (before ++ after)
  reached : Paired before
  text' : c'.text = bare (before ++ after)
  offset' : c'.offset = (bare before).length
  latched : c'.latched.map ScriptError.sansOffset = c.latched.map ScriptError.sansOffset

namespace Mirrors

variable {before after : Text} {c c' : Cursor}

theorem position (h : Mirrors before after c c') : c'.position = c.position := by
  rw [Cursor.position, Cursor.position, h.text, h.offset, h.text', h.offset', Text.bare_append,
    Text.positionOf_append, Text.positionOf_append, Text.endPosition_bare h.reached]

/-- The two cursors give the same, and are at the same place again after that. -/
theorem advance (h : Mirrors before after c c') :
    sansOffset c'.advance.outcome = sansOffset c.advance.outcome ∧
      ∃ before after, Mirrors before after c.advance.cursor c'.advance.cursor := by
  cases hl : c.latched with
  | some e =>
    have hlatched := h.latched
    rw [hl, Option.map_some, Option.map_eq_some_iff] at hlatched
    obtain ⟨e', hl', he⟩ := hlatched
    obtain ⟨houtcome, hcursor⟩ := Cursor.advance_of_latched hl
    obtain ⟨houtcome', hcursor'⟩ := Cursor.advance_of_latched hl'
    rw [houtcome, houtcome', hcursor, hcursor']
    exact ⟨congrArg Except.error he, before, after, h⟩
  | none =>
    have hl' : c'.latched = none := by
      have hlatched := h.latched
      rwa [hl, Option.map_none, Option.map_eq_none_iff] at hlatched
    have hc : c.scan = (before ++ after).scan before.length := by
      rw [Cursor.scan_of_unlatched hl, h.text, h.offset]
    have hc' : c'.scan = (bare (before ++ after)).scan (bare before).length := by
      rw [Cursor.scan_of_unlatched hl', h.text', h.offset']
    have hscan := scan_bare h.paired
    rw [← hc, ← hc'] at hscan
    unfold Cursor.advance
    generalize c.scan = x at hscan ⊢
    generalize c'.scan = y at hscan ⊢
    cases hscan with
    | nothing => exact ⟨rfl, before, after, h⟩
    | error he =>
      exact ⟨congrArg Except.error he, before, after, { h with latched := congrArg some he }⟩
    | @element consumed rest hsplit hpaired element ignored =>
      refine ⟨rfl, consumed, rest, ?_⟩
      exact { text := h.text.trans hsplit
              offset := rfl
              paired := hsplit ▸ h.paired
              reached := hpaired
              text' := hsplit ▸ h.text'
              offset' := rfl
              latched := h.latched }

theorem ahead (h : Mirrors before after c c') (n : Nat) :
    ∃ before after, Mirrors before after (c.ahead n) (c'.ahead n) := by
  induction n with
  | zero => exact ⟨before, after, h⟩
  | succ n ih =>
    obtain ⟨before, after, hn⟩ := ih
    rw [Cursor.ahead_succ, Cursor.ahead_succ]
    exact hn.advance.2

end Mirrors

/-- **Carriage returns in line ends make no difference.** Where every carriage return of a text
stands right before a line feed, a cursor on the text and one on the same text with line feeds alone
give the same elements, come to the end at the same step, or give the same error, which may tell
another offset but tells the same line, column and context; and after any number of steps they are
at the same line and column. The second text is the one that is read from a file which holds the
first. -/
theorem ahead_withFeeds {t : Text} (h : Paired t) (origin origin' : Option Text) :
    let returned := Cursor.ofText t origin
    let plain := Cursor.ofText t.withFeeds origin'
    (∀ n,
      sansOffset (plain.ahead n).advance.outcome = sansOffset (returned.ahead n).advance.outcome ∧
        (plain.ahead n).position = (returned.ahead n).position) ∧
      ∀ (fs : FileSystem) (path : Path) (shown : Text), fs.read path = .ok (Utf8.encode t) →
        Cursor.ofFile fs path shown "utf-8".toList = .ok (.ofText t.withFeeds (some shown)) := by
  intro returned plain
  have hfeeds := Text.withFeeds_eq_bare h
  have hstart : Mirrors [] t returned plain :=
    { text := rfl
      offset := rfl
      paired := h
      reached := Text.paired_of_not_mem (by simp)
      text' := hfeeds
      offset' := rfl
      latched := rfl }
  refine ⟨fun n => ?_, fun fs path shown hread => ?_⟩
  · obtain ⟨before, after, hn⟩ := hstart.ahead n
    exact ⟨hn.advance.1, hn.position⟩
  · have hdecode : fs.codecs.decodeAs "utf-8".toList (Utf8.encode t) = .ok t := by
      rw [Registry.decodeAs_utf8, Utf8.read_encode]
      rfl
    have htext : fs.readText path "utf-8".toList = .ok t.withFeeds := by
      rw [FileSystem.readText, if_neg (by decide), hread]
      simp only [hdecode, Text.unifyBreaks_eq_bare h, hfeeds]
    rw [Cursor.ofFile, htext]

/-- A comment, a speaker, and a directive whose line breaks off. -/
def broken : Text := "# note\r\n[Ada] good\r\nmorning\r\n@jump(b.vn\r\n".toList

theorem ahead_withFeeds_broken :
    Paired broken ∧
      (∀ n, sansOffset ((Cursor.ofText broken.withFeeds none).ahead n).advance.outcome =
          sansOffset ((Cursor.ofText broken none).ahead n).advance.outcome) ∧
      Cursor.ofFile (FileSystem.nameless.install (Path.ofText "a.vn".toList)
          (.file (Utf8.encode broken))) (Path.ofText "a.vn".toList) "a.vn".toList "utf-8".toList =
        .ok (.ofText broken.withFeeds (some "a.vn".toList)) := by
  have hpaired : Paired broken := by decide +kernel
  obtain ⟨hsteps, hfile⟩ := ahead_withFeeds hpaired none none
  exact ⟨hpaired, fun n => (hsteps n).1, hfile _ _ _ (by decide +kernel)⟩

end Playscript
