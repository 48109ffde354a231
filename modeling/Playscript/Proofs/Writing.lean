import Mathlib.Data.List.Chain
import Mathlib.Data.List.Forall2
import Playscript.Proofs.Blocks
import Playscript.Proofs.Stream

/-!
# Writing

Elements in their written form, one below the other, are a script, and a cursor on that script
gives the elements back. The writing of an element does not say where it ends; what follows decides
that, so the elements of a script must be such that a dialogue is followed by a marked line.

* `Written`: the texts an element is written as.
* `scan_of_drop`: a scan reads the first mark behind blanks.
* `read_written`: the reader of a kind reads its written form and leaves what follows.
* `ahead_written`: a cursor on written elements gives exactly these.
-/

namespace Playscript

/-- The texts an element is written as. A comment may say anything on its line. -/
inductive Written : Element → Text → Prop
  | dialogue (name body : Text) : Written (.dialogue name body) ('[' :: name ++ "] ".toList ++ body)
  | jump (path : Text) : Written (.directive (.jump path none)) ("@jump(".toList ++ path ++ [')'])
  | choice (a b path : Text) :
    Written (.directive (.jump path (some (a, b))))
      ("@jump(".toList ++ a ++ [','] ++ b ++ [','] ++ path ++ [')'])
  | background (path : Text) :
    Written (.directive (.loadBackground path)) ("@loadbg(".toList ++ path ++ [')'])
  | comment (note : Text) (h : '\n' ∉ note) : Written .comment ('#' :: note)

/-- A name that fits between brackets. -/
def Text.IsName (t : Text) : Prop :=
  Text.trim t = t ∧ ∀ c ∈ t, c ≠ ']' ∧ Text.isLineBreak c = false

/-- A text that fits between commas and parentheses. -/
def Text.IsArgument (t : Text) : Prop :=
  Text.trim t = t ∧ ∀ c ∈ t, c ≠ ',' ∧ c ≠ ')' ∧ Text.isLineBreak c = false

/-- An element whose written form shows all of it. -/
def Element.Writable : Element → Prop
  | .dialogue name body => name.IsName ∧ Text.squeeze body = body
  | .directive (.jump path none) => path.IsArgument ∧ path ≠ []
  | .directive (.jump path (some (a, b))) => a.IsArgument ∧ b.IsArgument ∧ path.IsArgument
  | .directive (.loadBackground path) => path.IsArgument ∧ path ≠ []
  | .comment => True

/-- No dialogue comes right after a dialogue. -/
def Spaced (es : List Element) : Prop :=
  es.IsChain fun e next => e.mark = .dialogue → next.mark ≠ .dialogue

instance (t : Text) : Decidable t.IsName :=
  decidable_of_iff (Text.trim t = t ∧ t.all fun c => c ≠ ']' && !Text.isLineBreak c)
    (by simp [Text.IsName])

instance (t : Text) : Decidable t.IsArgument :=
  decidable_of_iff (Text.trim t = t ∧ t.all fun c => c ≠ ',' && c ≠ ')' && !Text.isLineBreak c)
    (by simp [Text.IsArgument, and_assoc])

instance : (e : Element) → Decidable e.Writable
  | .dialogue _ _ => inferInstanceAs (Decidable (_ ∧ _))
  | .directive (.jump _ none) => inferInstanceAs (Decidable (_ ∧ _))
  | .directive (.jump _ (some (_, _))) => inferInstanceAs (Decidable (_ ∧ _ ∧ _))
  | .directive (.loadBackground _) => inferInstanceAs (Decidable (_ ∧ _))
  | .comment => inferInstanceAs (Decidable True)

instance (es : List Element) : Decidable (Spaced es) :=
  inferInstanceAs (Decidable (List.IsChain _ es))

/-! ## One written element -/

theorem Mark.isBlank_char (mark : Mark) : Text.isBlank mark.char = false := by
  cases mark <;> decide

theorem Mark.endsBody_char_cons {mark : Mark} (h : mark ≠ .dialogue) (t : Text) :
    endsBody (mark.char :: t) = true := by
  cases mark with
  | dialogue => exact absurd rfl h
  | directive => rfl
  | comment => rfl

theorem DirectiveKind.isNameLetter_of_mem {kind : DirectiveKind} :
    ∀ c ∈ kind.name, isNameLetter c = true := by
  have h : kind.name.all isNameLetter = true := by cases kind <;> decide
  exact List.all_eq_true.1 h

theorem Written.exists_cons {e : Element} {w : Text} (h : Written e w) :
    ∃ t, w = e.mark.char :: t := by
  cases h <;> exact ⟨_, rfl⟩

/-- A scan reads the first mark behind blanks. -/
theorem Text.scan_of_drop {source gap here : Text} {offset : Nat} {mark : Mark} {r : Reading}
    (hd : source.drop offset = gap ++ here) (hgap : ∀ c ∈ gap, isBlank c = true)
    (hm : here.head? = some mark.char) (hr : mark.read here = .ok r) :
    source.scan offset = .ok (some (r.startingAt (offset + gap.length))) := by
  have htake : (source.drop offset).takeWhile isBlank = gap := by
    rw [hd, List.takeWhile_append_of_pos hgap]
    cases here with
    | nil => cases hm
    | cons c rest =>
      obtain rfl : c = mark.char := by simpa using hm
      rw [List.takeWhile_cons_of_neg (by simp [Mark.isBlank_char]), List.append_nil]
  have hstart : source.nextStart offset = offset + gap.length := by rw [nextStart, htake]
  have hhere : source.drop (source.nextStart offset) = here := by
    rw [hstart, ← List.drop_drop, hd, List.drop_left]
  refine scan_eq_some_iff.2 ⟨mark, r, ?_, ?_, ?_⟩
  · rw [← List.head?_drop, hhere, hm]
  · rw [hhere, hr]
  · rw [hstart]

theorem Text.scan_of_drop_nil {source : Text} {offset : Nat} (h : source.drop offset = []) :
    source.scan offset = .ok none := by
  simp [scan, h]

/-- What may follow a written element: nothing, or a further line, which has to be marked if the
element is a dialogue. -/
def Element.FollowedBy (e : Element) (rest : Text) : Prop :=
  rest = [] ∨ ∃ next, rest = '\n' :: next ∧ (e.mark = .dialogue → endsBody next = true)

/-- A reading of a written element that leaves what follows, but for blanks. -/
structure Reads (e : Element) (w rest : Text) (r : Reading) (gap : Text) : Prop where
  read : e.mark.read (w ++ rest) = .ok r
  element : r.element = e
  blank : ∀ c ∈ gap, Text.isBlank c = true
  gap_of_nil : rest = [] → gap = []
  drop : (w ++ rest).drop r.size = gap ++ rest.drop 1

/-- Behind a directive the line feed is still to be passed over. -/
theorem reads_directive (name : Text) (args : List Text) {w : Text} {d : Directive} {rest : Text}
    (hw : w = '@' :: name ++ '(' :: [','].intercalate args ++ [')']) (hne : name ≠ [])
    (hn : ∀ c ∈ name, isNameLetter c = true) (hone : args ≠ [[]])
    (hargs : ∀ a ∈ args, a.IsArgument) (hd : Directive.resolve name args = .ok ⟨d, []⟩)
    (hr : (Element.directive d).FollowedBy rest) : ∃ r gap, Reads (.directive d) w rest r gap := by
  have hread := readDirective_join hne hn hone (fun a ha => (hargs a ha).1)
    (fun a ha => (hargs a ha).2) rest
  have happ : w ++ rest = '@' :: (name ++ '(' :: ([','].intercalate args ++ ')' :: rest)) := by
    simp [hw]
  have hlen : w.length = name.length + ([','].intercalate args).length + 3 := by
    simp [hw]
    omega
  rw [hd, ← hlen, ← happ] at hread
  refine ⟨_, rest.take 1, hread, rfl, ?_, ?_, ?_⟩
  · rcases hr with rfl | ⟨next, rfl, -⟩
    · simp
    · simp only [List.take_succ_cons, List.take_zero, List.mem_singleton]
      rintro c rfl
      decide
  · rintro rfl
    rfl
  · rw [List.drop_left, List.take_append_drop]

/-- A block that takes the line feed behind it leaves the next line. -/
theorem drop_of_feed {w rest : Text} (hr : rest = [] ∨ ∃ next, rest = '\n' :: next) :
    (w ++ rest).drop (w.length + if rest = [] then 0 else 1) = [] ++ rest.drop 1 := by
  rcases hr with rfl | ⟨next, rfl⟩
  · simp
  · simp [List.drop_append]

theorem Element.FollowedBy.feed {e : Element} {rest : Text} (h : e.FollowedBy rest) :
    rest = [] ∨ ∃ next, rest = '\n' :: next := by
  rcases h with rfl | ⟨next, rfl, -⟩
  · exact .inl rfl
  · exact .inr ⟨next, rfl⟩

theorem read_written {e : Element} {w rest : Text} (hw : Written e w) (hok : e.Writable)
    (hr : e.FollowedBy rest) : ∃ r gap, Reads e w rest r gap := by
  cases hw with
  | dialogue name body =>
    obtain ⟨⟨htrim, hname⟩, hbody⟩ := hok
    -- a squeezed body holds no line feed, so nothing in it ends it
    have hfeed : '\n' ∉ ' ' :: body := by
      intro h
      rcases List.mem_cons.1 h with h | h
      · cases h
      · rw [← hbody] at h
        cases Text.eq_space_of_mem_squeeze h (by decide)
    have hmarked : rest = [] ∨ ∃ next, rest = '\n' :: next ∧ endsBody next = true := by
      rcases hr with rfl | ⟨next, rfl, hnext⟩
      · exact .inl rfl
      · exact .inr ⟨next, rfl, hnext rfl⟩
    have hread := readDialogue_block hname (Text.unmarked_of_not_mem hfeed) hmarked
    rw [htrim, Text.squeeze_cons_of_blank (by decide), hbody] at hread
    have happ : '[' :: name ++ "] ".toList ++ body ++ rest
        = '[' :: (name ++ ']' :: (' ' :: body ++ rest)) := by simp
    have hlen : ('[' :: name ++ "] ".toList ++ body).length
        = name.length + 2 + (' ' :: body).length := by
      simp
      omega
    rw [← happ, ← hlen] at hread
    exact ⟨_, [], hread, rfl, by simp, fun _ => rfl, drop_of_feed hr.feed⟩
  | jump path =>
    obtain ⟨hpath, hne⟩ := hok
    have hargs : ∀ a ∈ [path], a.IsArgument := List.forall_mem_singleton.2 hpath
    exact reads_directive DirectiveKind.jump.name [path] (by simp [DirectiveKind.name])
      (by decide) DirectiveKind.isNameLetter_of_mem (by simp [hne]) hargs rfl hr
  | choice a b path =>
    obtain ⟨ha, hb, hpath⟩ := hok
    have hargs : ∀ x ∈ [a, b, path], x.IsArgument := by
      rintro x hx
      simp only [List.mem_cons, List.not_mem_nil, or_false] at hx
      rcases hx with rfl | rfl | rfl
      · exact ha
      · exact hb
      · exact hpath
    exact reads_directive DirectiveKind.jump.name [a, b, path] (by simp [DirectiveKind.name])
      (by decide) DirectiveKind.isNameLetter_of_mem (by simp) hargs rfl hr
  | background path =>
    obtain ⟨hpath, hne⟩ := hok
    have hargs : ∀ a ∈ [path], a.IsArgument := List.forall_mem_singleton.2 hpath
    exact reads_directive DirectiveKind.loadBackground.name [path] (by simp [DirectiveKind.name])
      (by decide) DirectiveKind.isNameLetter_of_mem (by simp [hne]) hargs rfl hr
  | comment note hn =>
    have hread := readComment_line hn hr.feed
    have hdrop := drop_of_feed (w := '#' :: note) hr.feed
    exact ⟨_, [], congrArg Except.ok hread, rfl, by simp, fun _ => rfl, hdrop⟩

/-! ## Written scripts -/

theorem drop_intercalate_feed (ws : List Text) :
    (if ws = [] then [] else '\n' :: ['\n'].intercalate ws).drop 1 = ['\n'].intercalate ws := by
  cases ws <;> simp

theorem intercalate_feed (w : Text) (ws : List Text) :
    ['\n'].intercalate (w :: ws) = w ++ if ws = [] then [] else '\n' :: ['\n'].intercalate ws := by
  cases ws with
  | nil => simp
  | cons w' ws => simp [List.intercalate_cons_cons]

/-- The rest of a written script may follow its first element. -/
theorem followedBy_written {e : Element} {es : List Element} {ws : List Text}
    (hw : List.Forall₂ Written es ws) (hs : Spaced (e :: es)) :
    e.FollowedBy (if ws = [] then [] else '\n' :: ['\n'].intercalate ws) := by
  cases hw with
  | nil => exact .inl rfl
  | @cons next w es ws hnext _ =>
    refine .inr ⟨['\n'].intercalate (w :: ws), rfl, fun he => ?_⟩
    obtain ⟨t, rfl⟩ := hnext.exists_cons
    rw [intercalate_feed, List.cons_append]
    exact Mark.endsBody_char_cons ((List.isChain_cons_cons.1 hs).1 he) _

/-- A cursor before written elements gives these, and stops at the end of its text. The induction
is on the elements; blanks may stand before the first, as a directive leaves its line feed. -/
theorem ahead_written_of_drop {es : List Element} {ws : List Text}
    (hw : List.Forall₂ Written es ws) (hok : ∀ e ∈ es, e.Writable) (hs : Spaced es)
    {c : Cursor} {gap : Text} (hl : c.latched = none) (hle : c.offset ≤ c.text.length)
    (hd : c.text.drop c.offset = gap ++ ['\n'].intercalate ws)
    (hgap : ∀ d ∈ gap, Text.isBlank d = true) (hnil : es = [] → gap = []) :
    (∀ (n : Nat) (h : n < es.length), (c.ahead n).advance.outcome = .ok (some es[n])) ∧
      (c.ahead es.length).advance.outcome = .ok none ∧
      (c.ahead es.length).offset = c.text.length := by
  induction hw generalizing c gap with
  | nil =>
    rw [hnil rfl] at hd
    have hend : c.scan = .ok none := by
      rw [Cursor.scan_of_unlatched hl]
      exact Text.scan_of_drop_nil hd
    refine ⟨fun n h => absurd h (by simp), ?_, ?_⟩
    · rw [List.length_nil, Cursor.ahead, Cursor.outcome_advance, Cursor.peek, hend]
      rfl
    · have := congrArg List.length hd
      simp only [List.length_drop, List.nil_append, List.intercalate_nil, List.length_nil] at this
      simp only [List.length_nil, Cursor.ahead]
      omega
  | @cons e w es ws hw hws ih =>
    rw [intercalate_feed] at hd
    obtain ⟨r, gap', hread⟩ :=
      read_written hw (hok e (List.mem_cons_self ..)) (followedBy_written hws hs)
    have hhead : (w ++ if ws = [] then [] else '\n' :: ['\n'].intercalate ws).head?
        = some e.mark.char := by
      obtain ⟨t, rfl⟩ := hw.exists_cons
      rfl
    have hscan : c.scan = .ok (some (r.startingAt (c.offset + gap.length))) := by
      rw [Cursor.scan_of_unlatched hl]
      exact Text.scan_of_drop hd hgap hhead hread.read
    have hstep := Cursor.advance_of_scan hscan
    have hrest : c.text.drop (r.startingAt (c.offset + gap.length)).stop
        = gap' ++ ['\n'].intercalate ws := by
      rw [Reading.startingAt, ← List.drop_drop, ← List.drop_drop, hd, List.drop_left, hread.drop,
        drop_intercalate_feed]
    have hnil' : es = [] → gap' = [] := by
      rintro rfl
      cases hws
      exact hread.gap_of_nil rfl
    obtain ⟨hall, hlast, hend⟩ := ih (fun e he => hok e (List.mem_cons_of_mem _ he)) hs.tail
      (c := { c with offset := (r.startingAt (c.offset + gap.length)).stop }) hl
      (Cursor.lt_stop_of_scan hscan).2 hrest hread.blank hnil'
    simp only [List.length_cons, Cursor.ahead, hstep]
    refine ⟨fun n h => ?_, hlast, hend⟩
    cases n with
    | zero =>
      rw [Cursor.ahead, hstep, Reading.startingAt, hread.element]
      rfl
    | succ n =>
      rw [Cursor.ahead, hstep]
      exact hall n (by simpa using h)

/-- **Reading undoes writing.** A cursor on elements written one below the other gives these
elements and then nothing, at the end of its text. -/
theorem ahead_written {es : List Element} {ws : List Text} (hw : List.Forall₂ Written es ws)
    (hok : ∀ e ∈ es, e.Writable) (hs : Spaced es) (origin : Option Text) :
    (∀ (n : Nat) (h : n < es.length),
      ((Cursor.ofText (['\n'].intercalate ws) origin).ahead n).advance.outcome
        = .ok (some es[n])) ∧
      ((Cursor.ofText (['\n'].intercalate ws) origin).ahead es.length).advance.outcome = .ok none ∧
      ((Cursor.ofText (['\n'].intercalate ws) origin).ahead es.length).offset
        = (['\n'].intercalate ws).length := by
  have hd : (Cursor.ofText (['\n'].intercalate ws) origin).text.drop 0
      = [] ++ ['\n'].intercalate ws := rfl
  exact ahead_written_of_drop hw hok hs rfl (Nat.zero_le _) hd (by simp) fun _ => rfl

/-- Empty names, bodies and labels, and a body that looks like marks. -/
def prologue : List Element :=
  [.dialogue [] [], .directive (.loadBackground "park.png".toList),
    .dialogue "Ada".toList "@ [sic] #2".toList, .comment,
    .directive (.jump "b.vn".toList (some ([], "left".toList)))]

def prologueLines : List Text :=
  ["[] ".toList, "@loadbg(park.png)".toList, "[Ada] @ [sic] #2".toList, "# to be cut".toList,
    "@jump(,left,b.vn)".toList]

theorem written_prologue : List.Forall₂ Written prologue prologueLines :=
  .cons (.dialogue [] [])
    (.cons (.background "park.png".toList)
      (.cons (.dialogue "Ada".toList "@ [sic] #2".toList)
        (.cons (.comment " to be cut".toList (by decide))
          (.cons (.choice [] "left".toList "b.vn".toList) .nil))))

theorem ahead_written_prologue :
    (List.Forall₂ Written prologue prologueLines ∧ (∀ e ∈ prologue, e.Writable) ∧
        Spaced prologue) ∧
      let c := Cursor.ofText (['\n'].intercalate prologueLines) none
      (∀ (n : Nat) (h : n < prologue.length),
        (c.ahead n).advance.outcome = .ok (some prologue[n])) ∧
      (c.ahead prologue.length).advance.outcome = .ok none ∧
      (c.ahead prologue.length).offset = (['\n'].intercalate prologueLines).length := by
  have hok : ∀ e ∈ prologue, e.Writable := by decide
  have hs : Spaced prologue := by decide
  exact ⟨⟨written_prologue, hok, hs⟩, ahead_written written_prologue hok hs none⟩

end Playscript
