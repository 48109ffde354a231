import Playscript.Proofs.Latch
import Playscript.Proofs.Playback

/-!
# Seeks

The parse of a text comes to rest where each element ends. A cursor that is only advanced is always
at such an offset, and goes on from there with the elements of the parse. A seek, though, is granted
to every offset that the cursor has come past. One in the middle of an element will do, and what is
read from there need not be an element of the parse.

* `Text.suffix_of_rest`: from where a parse comes to rest it goes on as before.
* `Cursor.onParse_perform`, `Cursor.onParse_exchanges`: an operation, and a session, that seek no
  other offsets keep to the parse.
* `Text.eq_comment_of_stop`: an element of one character is a lone comment mark.
* `on_parse_iff_seeks_rest`: the sessions that keep to the parse, and the texts on which all do.
-/

namespace Playscript

/-! ## Readings of one character -/

theorem one_lt_size_readDialogue {here : Text} {r : Reading} (h : readDialogue here = .ok r) :
    1 < r.size := by
  simp only [readDialogue] at h
  split at h
  · cases h
    simp only
    omega
  · cases h

theorem one_lt_size_readDirective {here : Text} {r : Reading} (h : readDirective here = .ok r) :
    1 < r.size := by
  simp only [readDirective] at h
  split at h
  · cases h
  · split at h
    · split at h
      · split at h
        · cases h
          simp only
          omega
        · cases h
      · cases h
    · cases h

/-- A comment takes up its whole line, and the line feed behind it. -/
theorem eq_nil_of_size_readComment {after : Text}
    (h : (readComment (Mark.comment.char :: after)).size = 1) : after = [] := by
  have hfirst : (Mark.comment.char :: after).takeWhile (· ≠ '\n') =
      Mark.comment.char :: after.takeWhile (· ≠ '\n') :=
    List.takeWhile_cons_of_pos (by decide)
  simp only [readComment, hfirst, List.length_cons, List.drop_succ_cons] at h
  split at h
  · rename_i hnil
    have hline : (after.takeWhile (· ≠ '\n')).length = 0 := by omega
    rwa [hline, List.drop_zero] at hnil
  · omega

/-! ## Where a parse rests -/

namespace Text

variable {source : Text} {offset rest : Nat}

/-- Where the parse of a text comes to rest: at the start, and where an element ends. -/
def rests (source : Text) : List Nat := 0 :: (source.streamFrom 0).elements.map Parsed.stop

theorem suffix_of_rest {ps : List Parsed} (h : (source.streamFrom offset).elements = ps)
    (hrest : rest = offset ∨ rest ∈ ps.map Parsed.stop) :
    (source.streamFrom rest).elements <:+ ps := by
  induction ps generalizing offset with
  | nil =>
    rcases hrest with rfl | hrest
    · exact h ▸ List.suffix_rfl
    · cases hrest
  | cons p ps ih =>
    rcases hrest with rfl | hrest
    · exact h ▸ List.suffix_rfl
    · obtain ⟨-, hlater, -⟩ := scan_of_elements_cons h
      exact (ih hlater (List.mem_cons.1 hrest)).trans (List.suffix_cons p ps)

/-- What is found from where the parse rests is an element of the parse. -/
theorem mem_of_scan_rest {p : Parsed} (hrest : rest ∈ source.rests)
    (h : source.scan rest = .ok (some p)) : p ∈ (source.streamFrom 0).elements := by
  have hsuffix := suffix_of_rest rfl (List.mem_cons.1 hrest)
  rw [streamFrom_of_some h] at hsuffix
  exact hsuffix.subset (List.mem_cons_self ..)

theorem stop_mem_rests {p : Parsed} (h : p ∈ (source.streamFrom 0).elements) :
    p.stop ∈ source.rests :=
  List.mem_cons_of_mem _ (List.mem_map_of_mem h)

/-- The elements of a stream end past the offset that it starts at. -/
theorem lt_stop_of_mem {ps : List Parsed} (h : (source.streamFrom offset).elements = ps)
    {p : Parsed} (hp : p ∈ ps) : offset < p.stop := by
  induction ps generalizing offset with
  | nil => cases hp
  | cons q ps ih =>
    obtain ⟨hscan, hlater, -⟩ := scan_of_elements_cons h
    have hlt := (lt_stop_of_scan hscan).1
    rcases List.mem_cons.1 hp with rfl | hp
    · exact hlt
    · exact hlt.trans (ih hlater hp)

/-- Between the start and the end of the first element the parse does not rest. -/
theorem le_of_mem_rests {p : Parsed} (h : source.scan 0 = .ok (some p))
    (hrest : rest ∈ source.rests) (hpos : 0 < rest) : p.stop ≤ rest := by
  rcases List.mem_cons.1 hrest with rfl | hrest
  · exact absurd hpos (Nat.lt_irrefl 0)
  · obtain ⟨q, hq, rfl⟩ := List.mem_map.1 hrest
    rw [streamFrom_of_some h] at hq
    rcases List.mem_cons.1 hq with rfl | hq
    · exact Nat.le_refl _
    · exact Nat.le_of_lt (lt_stop_of_mem rfl hq)

/-- Only a comment takes up a single character, and only where nothing comes after its mark. -/
theorem eq_comment_of_stop {p : Parsed} (h : source.scan 0 = .ok (some p)) (hstop : p.stop = 1) :
    source = [Mark.comment.char] := by
  have hlt := (getElem?_nextStart_of_scan h).2.1
  obtain ⟨mark, r, hmark, hread, rfl⟩ := scan_eq_some_iff.1 h
  have hzero : source.nextStart 0 = 0 := by omega
  rw [hzero] at hmark hread
  have hsize : r.size = 1 := by
    simp only [Reading.startingAt, hzero] at hstop
    omega
  rw [drop_of_getElem? hmark] at hread
  have hsource : source = mark.char :: source.drop 1 := by
    have := drop_of_getElem? hmark
    rwa [List.drop_zero] at this
  cases mark with
  | dialogue =>
    have hlonger := one_lt_size_readDialogue hread
    omega
  | directive =>
    have hlonger := one_lt_size_readDirective hread
    omega
  | comment =>
    obtain rfl := Except.ok.inj hread
    rw [hsource, eq_nil_of_size_readComment hsize]

end Text

/-! ## Sessions -/

namespace Cursor

/-- An operation on a cursor, where it left the cursor, and the reply. -/
structure Exchange where
  operation : Operation
  cursor : Cursor
  reply : Reply

def exchange (c : Cursor) (op : Operation) : Exchange := ⟨op, (c.perform op).1, (c.perform op).2⟩

/-- The exchanges of a session. -/
def exchanges : Cursor → List Operation → List Exchange
  | _, [] => []
  | c, op :: ops => c.exchange op :: exchanges (c.perform op).1 ops

/-- The element that a reply gives. -/
def Reply.element? : Reply → Option Element
  | .answered (.advanced (.ok found)) => found
  | .answered (.foretold (.ok found)) => found
  | .iterated (.ok element) => some element
  | _ => none

namespace Exchange

/-- The cursor is left where the parse of the text rests, and an element that was given is one of
the parse. -/
structure OnParse (text : Text) (x : Exchange) : Prop where
  rests : x.cursor.offset ∈ text.rests
  given : ∀ e, x.reply.element? = some e → e ∈ text.elements

/-- If this was a seek that was granted, it was to an offset where the parse of the text rests. -/
def SeeksRest (text : Text) (x : Exchange) : Prop :=
  ∀ offset : Int, x.operation = .request (.seek offset) → x.reply = .moved →
    ∃ rest ∈ text.rests, offset = rest

end Exchange

variable {c : Cursor} {op : Operation} {text : Text}

/-- Every offset that the cursor has come past is granted. -/
theorem exchange_seek (c : Cursor) (offset : Int) :
    0 ≤ offset ∧ offset ≤ c.offset ∧
        c.exchange (.request (.seek offset)) =
          ⟨.request (.seek offset), { c with offset := offset.toNat, latched := none }, .moved⟩ ∨
      ¬ (0 ≤ offset ∧ offset ≤ c.offset) ∧
        c.exchange (.request (.seek offset)) =
          ⟨.request (.seek offset), c, .refused ⟨offset, c.offset⟩⟩ := by
  by_cases h : 0 ≤ offset ∧ offset ≤ c.offset
  · refine .inl ⟨h.1, h.2, ?_⟩
    simp only [exchange, perform, serve, seek, if_pos h]
  · refine .inr ⟨h, ?_⟩
    simp only [exchange, perform, serve, seek, if_neg h]

/-- A seek says whether it was granted, and changes nothing if it was not. -/
theorem exchange_seek_iff (c : Cursor) (offset : Int) :
    ((c.exchange (.request (.seek offset))).reply = .moved ↔ 0 ≤ offset ∧ offset ≤ c.offset) ∧
      ((c.exchange (.request (.seek offset))).reply ≠ .moved →
        (c.exchange (.request (.seek offset))).cursor = c) := by
  rcases c.exchange_seek offset with ⟨hpos, hle, hgranted⟩ | ⟨hfar, hrefused⟩
  · rw [hgranted]
    exact ⟨⟨fun _ => ⟨hpos, hle⟩, fun _ => rfl⟩, fun h => absurd rfl h⟩
  · rw [hrefused]
    exact ⟨⟨nofun, fun h => absurd h hfar⟩, fun _ => rfl⟩

/-- An element that is given was found by the scan of the cursor. -/
theorem exists_scan_of_element {e : Element} (h : (c.perform op).2.element? = some e) :
    ∃ p, c.scan = .ok (some p) ∧ p.element = e := by
  have hpeek : c.peek = .ok (some e) → ∃ p, c.scan = .ok (some p) ∧ p.element = e := by
    intro hpeek
    exact exists_scan_of_outcome ((outcome_advance c).trans hpeek)
  cases op with
  | iterate =>
    simp only [perform, outcome_advance] at h
    cases hp : c.peek with
    | error error => simp [hp, Engine.Outcome.iterated, Reply.element?] at h
    | ok found =>
      cases found with
      | none => simp [hp, Engine.Outcome.iterated, Reply.element?] at h
      | some element =>
        obtain rfl : element = e := by simpa [hp, Engine.Outcome.iterated, Reply.element?] using h
        exact hpeek hp
  | request r =>
    cases r with
    | advance =>
      simp only [perform, serve, outcome_advance] at h
      cases hp : c.peek with
      | error error => simp [hp, Reply.element?] at h
      | ok found =>
        obtain rfl : found = some e := by simpa [hp, Reply.element?] using h
        exact hpeek hp
    | peek =>
      simp only [perform, serve] at h
      cases hp : c.peek with
      | error error => simp [hp, Reply.element?] at h
      | ok found =>
        obtain rfl : found = some e := by simpa [hp, Reply.element?] using h
        exact hpeek hp
    | seek offset =>
      simp only [perform, serve] at h
      split at h <;> cases h

/-- At an offset where the parse rests, an operation that does not seek another one keeps to the
parse. -/
theorem onParse_perform (hc : Coherent text c) (hrest : c.offset ∈ text.rests)
    (hseek : (c.exchange op).SeeksRest text) : (c.exchange op).OnParse text := by
  have hfound : ∀ {p}, c.scan = .ok (some p) → p ∈ (text.streamFrom 0).elements :=
    fun hscan => Text.mem_of_scan_rest hrest (hc.scan ▸ hscan)
  constructor
  · rcases c.perform_cases op with
      hstep | ⟨-, hpeek⟩ | ⟨_, _, -, hrefused⟩ | ⟨offset, _, rfl, hmoved⟩
    · simp only [exchange, perform_of_advances hstep]
      cases hscan : c.scan with
      | error e =>
        rw [cursor_advance_of_error hscan]
        exact hrest
      | ok found =>
        cases found with
        | none =>
          simp only [advance, hscan]
          exact hrest
        | some p =>
          rw [advance_of_scan hscan]
          exact Text.stop_mem_rests (hfound hscan)
    · simp only [exchange, hpeek]
      exact hrest
    · simp only [exchange, hrefused]
      exact hrest
    · rcases c.exchange_seek offset with ⟨-, -, hgranted⟩ | ⟨-, hrefused⟩
      · obtain ⟨rest, hmem, hoffset⟩ := hseek offset rfl (by rw [hgranted])
        rw [hgranted]
        show offset.toNat ∈ text.rests
        rwa [hoffset, Int.toNat_natCast]
      · rw [hrefused]
        exact hrest
  · intro e he
    obtain ⟨p, hscan, rfl⟩ := exists_scan_of_element he
    exact List.mem_map_of_mem (hfound hscan)

/-- A session that seeks no other offsets keeps to the parse. The induction is on the operations;
each leaves the cursor coherent and at rest. -/
theorem onParse_exchanges (hc : Coherent text c) (hrest : c.offset ∈ text.rests)
    {ops : List Operation} (hseek : ∀ x ∈ c.exchanges ops, x.SeeksRest text) :
    ∀ x ∈ c.exchanges ops, x.OnParse text := by
  induction ops generalizing c with
  | nil => exact fun x hx => absurd hx (by simp [exchanges])
  | cons op ops ih =>
    obtain ⟨hfirst, hlater⟩ := List.forall_mem_cons.1 hseek
    have hkept := onParse_perform hc hrest hfirst
    exact List.forall_mem_cons.2 ⟨hkept, ih (hc.perform op) hkept.rests hlater⟩

theorem exists_of_mem_exchanges {ops : List Operation} {x : Exchange} (h : x ∈ c.exchanges ops) :
    ∃ before : Cursor, x = before.exchange x.operation := by
  induction ops generalizing c with
  | nil => cases h
  | cons op ops ih =>
    rcases List.mem_cons.1 h with rfl | h
    · exact ⟨c, rfl⟩
    · exact ih h

/-- A cursor that is left where the parse rests was not sent to another offset. -/
theorem seeksRest_of_onParse {ops : List Operation} {x : Exchange} (hx : x ∈ c.exchanges ops)
    (h : x.OnParse text) : x.SeeksRest text := by
  intro offset hop hreply
  obtain ⟨before, hbefore⟩ := exists_of_mem_exchanges hx
  rw [hop] at hbefore
  rcases before.exchange_seek offset with ⟨hpos, -, hgranted⟩ | ⟨-, hrefused⟩
  · have hrests := h.rests
    rw [hbefore, hgranted] at hrests
    exact ⟨offset.toNat, hrests, (Int.toNat_of_nonneg hpos).symm⟩
  · rw [hbefore, hrefused] at hreply
    cases hreply

/-- Where the parse rests at every offset that it comes past, there is no other one to seek. -/
theorem onParse_of_gapless (hgapless : ∀ rest ∈ text.rests, ∀ n ≤ rest, n ∈ text.rests)
    (hc : Coherent text c) (hrest : c.offset ∈ text.rests) (ops : List Operation) :
    ∀ x ∈ c.exchanges ops, x.OnParse text := by
  induction ops generalizing c with
  | nil => exact fun x hx => absurd hx (by simp [exchanges])
  | cons op ops ih =>
    have hseek : (c.exchange op).SeeksRest text := by
      rintro offset rfl hreply
      rcases c.exchange_seek offset with ⟨hpos, hle, -⟩ | ⟨-, hrefused⟩
      · exact ⟨offset.toNat, hgapless _ hrest _ (by omega), (Int.toNat_of_nonneg hpos).symm⟩
      · rw [hrefused] at hreply
        cases hreply
    have hkept := onParse_perform hc hrest hseek
    exact List.forall_mem_cons.2 ⟨hkept, ih (hc.perform op) hkept.rests⟩

/-- One step forward, and back to the offset just past the start: that keeps to the parse only if
the first element ends there. -/
theorem stop_eq_one_of_onParse (hc : Coherent text c) (hstart : c.offset = 0) {p : Parsed}
    (hscan : text.scan 0 = .ok (some p))
    (h : ∀ x ∈ c.exchanges [.request .advance, .request (.seek 1)], x.OnParse text) :
    p.stop = 1 := by
  have hpos := (Text.lt_stop_of_scan hscan).1
  have hfound : c.scan = .ok (some p) := by rw [hc.scan, hstart, hscan]
  have hadvance : (c.perform (.request .advance)).1 = { c with offset := p.stop } := by
    simp only [perform, serve, advance_of_scan hfound]
  have hrests := (h ((c.perform (.request .advance)).1.exchange (.request (.seek 1)))
    (by simp [exchanges])).rests
  rw [hadvance] at hrests
  rcases exchange_seek { c with offset := p.stop } 1 with ⟨-, -, hgranted⟩ | ⟨hfar, -⟩
  · rw [hgranted] at hrests
    have hle : p.stop ≤ 1 := Text.le_of_mem_rests hscan hrests Nat.one_pos
    omega
  · simp only at hfar
    omega

end Cursor

/-- **Seeks decide whether a session keeps to the parse.** A seek is granted wherever the cursor has
come past, and changes nothing otherwise. So after each operation of a session the cursor is where
the parse of its text rests, and has given elements of the parse only, just if every seek that was
granted was to such an offset. Nobody sees to that but whoever seeks: the only texts on which all
sessions keep to the parse are those without an element, where there is nothing to come past, and a
lone comment mark, which has no inside. -/
theorem on_parse_iff_seeks_rest (text : Text) (origin : Option Text) :
    let c := Cursor.ofText text origin
    (∀ ops offset,
      let before := c.after ops
      let sought := before.exchange (.request (.seek offset))
      (sought.reply = .moved ↔ 0 ≤ offset ∧ offset ≤ before.offset) ∧
        (sought.reply ≠ .moved → sought.cursor = before)) ∧
      (∀ ops, (∀ x ∈ c.exchanges ops, x.OnParse text) ↔ ∀ x ∈ c.exchanges ops, x.SeeksRest text) ∧
      ((∀ ops, ∀ x ∈ c.exchanges ops, x.OnParse text) ↔
        text.elements = [] ∨ text = [Mark.comment.char]) := by
  intro c
  have hc : Cursor.Coherent text c := ⟨rfl, fun e he => by cases he⟩
  have hstart : c.offset ∈ text.rests := List.mem_cons_self ..
  refine ⟨fun ops offset => (c.after ops).exchange_seek_iff offset, ?_, ?_, ?_⟩
  · exact fun ops => ⟨fun h x hx => Cursor.seeksRest_of_onParse hx (h x hx),
      Cursor.onParse_exchanges hc hstart⟩
  · intro h
    cases hscan : text.scan 0 with
    | error e => exact .inl (by rw [Text.elements, Text.streamFrom_of_error hscan]; rfl)
    | ok found =>
      cases found with
      | none => exact .inl (by rw [Text.elements, Text.streamFrom_of_none hscan]; rfl)
      | some p =>
        have hstop := Cursor.stop_eq_one_of_onParse hc rfl hscan (h _)
        exact .inr (Text.eq_comment_of_stop hscan hstop)
  · intro h ops
    refine Cursor.onParse_of_gapless ?_ hc hstart ops
    rcases h with hnone | rfl
    · have hnil : (text.streamFrom 0).elements = [] := List.map_eq_nil_iff.1 hnone
      simp only [Text.rests, hnil, List.map_nil, List.mem_singleton]
      omega
    · have hrests : Text.rests [Mark.comment.char] = [0, 1] := by decide +kernel
      simp only [hrests, List.mem_cons, List.not_mem_nil, or_false]
      omega

/-- A body that looks like a directive. -/
def murmur : Text := "[A] @loadbg(x)".toList

/-- A seek into a dialogue is granted, and a directive is read there which is none. -/
theorem seek_into_dialogue :
    let session := (Cursor.ofText murmur none).exchanges
      [.request .advance, .request (.seek 4), .request .advance]
    let backdrop := Element.directive (.loadBackground "x".toList)
    session.map (fun x => (x.cursor.offset, x.reply.element?)) =
        [(14, some (.dialogue "A".toList "@loadbg(x)".toList)), (4, none), (14, some backdrop)] ∧
      4 ∉ murmur.rests ∧ backdrop ∉ murmur.elements := by
  decide +kernel

end Playscript
