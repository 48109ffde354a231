import Playscript.Proofs.Session

/-!
# Playback

What an engine plays, told without an engine: the elements of a text up to its first jump, then the
elements of the whole target of that jump, and so on, until a text ends, is at fault, or jumps to
what cannot be read. An engine that is asked for the next element again and again plays just that.

* `playback`: the outcomes of playing a text.
* `playElements_repeats`: nothing comes after an error or the end.
* `next_foretold`: one step gives the first outcome of what is to come and leaves the others.
* `outcomes_serveAll`: the steps of a session give the playback of its script.
-/

namespace Playscript

/-- The elements of a text. -/
def Text.elements (source : Text) : List Element :=
  (source.streamFrom 0).elements.map Parsed.element

/-- The error that the elements of a text end with, if any. -/
def Text.error (source : Text) : Option ScriptError := (source.streamFrom 0).error

/-- Where a jump leads from a script of the given origin. -/
def jumpTarget (config : Config) (origin : Option Text) (path : Text) : Path :=
  if (Path.ofText path).isRooted || !config.relativeToScript then Path.ofText path
  else
    match origin with
    | none | some [] => Path.ofText path
    | some origin => (Path.ofText origin).parent.join (Path.ofText path)

/-- The first outcomes of playing elements that end with an error or just end. Once playing has
come to a stop, it stays there. -/
def playElements (config : Config) (files : FileSystem) :
    Nat → Option Text → List Element → Option ScriptError → List Engine.Outcome
  | 0, _, _, _ => []
  | n + 1, _, [], none => List.replicate (n + 1) (.ok none)
  | n + 1, _, [], some error => List.replicate (n + 1) (.error error)
  | n + 1, origin, .directive (.jump path choices) :: _, _ =>
    let target := jumpTarget config origin path
    match files.readText target config.encoding with
    | .error reason =>
      List.replicate (n + 1) (.error { fault := .unreadable target.toText reason })
    | .ok text =>
      .ok (some (.directive (.jump path choices))) ::
        playElements config files n (some target.toText) text.elements text.error
  | n + 1, origin, element :: rest, error =>
    .ok (some element) :: playElements config files n origin rest error

/-- The first `n` outcomes of playing a text from its start. -/
def playback (config : Config) (files : FileSystem) (n : Nat) (origin : Option Text)
    (text : Text) : List Engine.Outcome :=
  playElements config files n origin text.elements text.error

/-- An outcome without an element. -/
def Engine.Outcome.Stops (o : Engine.Outcome) : Prop := ∀ element, o ≠ .ok (some element)

/-! ## The outcomes of playing -/

section
variable {config : Config} {files : FileSystem} {n : Nat} {origin : Option Text}
  {rest : List Element} {error : Option ScriptError}

theorem playElements_nil (ending : Option ScriptError) :
    playElements config files (n + 1) origin [] ending =
      List.replicate (n + 1) (Stream.ending { error := ending }) := by
  cases ending <;> rfl

theorem playElements_of_not_jump {element : Element}
    (h : ∀ path choices, element ≠ .directive (.jump path choices)) :
    playElements config files (n + 1) origin (element :: rest) error =
      .ok (some element) :: playElements config files n origin rest error := by
  rw [playElements]
  exact h

theorem playElements_jump_unreadable {path : Text} {choices : Option (Text × Text)}
    {reason : Reason}
    (h : files.readText (jumpTarget config origin path) config.encoding = .error reason) :
    playElements config files (n + 1) origin (.directive (.jump path choices) :: rest) error =
      List.replicate (n + 1)
        (.error { fault := .unreadable (jumpTarget config origin path).toText reason }) := by
  rw [playElements]
  simp only [h]

theorem playElements_jump {path text : Text} {choices : Option (Text × Text)}
    (h : files.readText (jumpTarget config origin path) config.encoding = .ok text) :
    playElements config files (n + 1) origin (.directive (.jump path choices) :: rest) error =
      .ok (some (.directive (.jump path choices))) ::
        playback config files n (some (jumpTarget config origin path).toText) text := by
  rw [playElements]
  simp only [h, playback]

end

/-- Playing either has come to a stop, or gives an element and goes on. -/
theorem playElements_succ (config : Config) (files : FileSystem) (n : Nat)
    (origin : Option Text) (elements : List Element) (error : Option ScriptError) :
    (∃ o : Engine.Outcome, playElements config files (n + 1) origin elements error =
        List.replicate (n + 1) o) ∨
      ∃ element origin' elements' error',
        playElements config files (n + 1) origin elements error =
          .ok (some element) :: playElements config files n origin' elements' error' := by
  cases elements with
  | nil => exact .inl ⟨_, playElements_nil error⟩
  | cons element rest =>
    by_cases hj : ∃ path choices, element = .directive (.jump path choices)
    · obtain ⟨path, choices, rfl⟩ := hj
      cases hread : files.readText (jumpTarget config origin path) config.encoding with
      | error reason => exact .inl ⟨_, playElements_jump_unreadable hread⟩
      | ok text => exact .inr ⟨_, _, _, _, playElements_jump hread⟩
    · have hj' : ∀ path choices, element ≠ .directive (.jump path choices) := by
        intro path choices h
        exact hj ⟨path, choices, h⟩
      exact .inr ⟨_, _, _, _, playElements_of_not_jump hj'⟩

/-- After an outcome without an element there is only that outcome. -/
theorem playElements_repeats (config : Config) (files : FileSystem) (n : Nat)
    (origin : Option Text) (elements : List Element) (error : Option ScriptError) :
    (playElements config files n origin elements error).Pairwise
      fun a b => a.Stops → b = a := by
  induction n generalizing origin elements error with
  | zero => exact List.Pairwise.nil
  | succ n ih =>
    rcases playElements_succ config files n origin elements error with
      ⟨o, h⟩ | ⟨element, origin', elements', error', h⟩
    · rw [h, List.pairwise_replicate]
      exact .inr fun _ => rfl
    · rw [h, List.pairwise_cons]
      refine ⟨?_, ih origin' elements' error'⟩
      intro b _ hstops
      exact absurd rfl (hstops element)

/-! ## An engine that plays -/

theorem Engine.resolvePath_eq (p : Player) (path : Text) :
    resolvePath p path = jumpTarget p.config p.cursor.origin path := by
  simp only [resolvePath, jumpTarget, originOf]
  cases p.cursor.origin with
  | none => rfl
  | some origin =>
    cases origin with
    | nil => rfl
    | cons c rest => rfl

/-- What opening the target of a jump comes to. -/
theorem Engine.openScript_eq (p : Player) (path : Text) :
    openScript p path =
      let target := jumpTarget p.config p.cursor.origin path
      match p.files.readText target p.config.encoding with
      | .error reason => .error { fault := .unreadable target.toText reason }
      | .ok text => .ok (.ofText text (some target.toText)) := by
  simp only [openScript, resolvePath_eq, Cursor.ofFile]
  cases p.files.readText (jumpTarget p.config p.cursor.origin path) p.config.encoding <;> rfl

/-- What a jump comes to, in terms of its target. -/
theorem Engine.effectOf_jump (p : Player) (path : Text) (choices : Option (Text × Text)) :
    effectOf p (.jump path choices) =
      match p.files.readText (resolvePath p path) p.config.encoding with
      | .error reason => .error { fault := .unreadable (resolvePath p path).toText reason }
      | .ok text => .ok (.jump (.ofText text (some (resolvePath p path).toText)) path choices) := by
  simp only [effectOf, openScript, Cursor.ofFile]
  cases p.files.readText (resolvePath p path) p.config.encoding <;> rfl

/-- The outcomes that the steps of a player are going to give, if nothing else happens. -/
def Player.foretold (p : Player) (n : Nat) : List Engine.Outcome :=
  match p.state with
  | .errored error => List.replicate n (.error error)
  | .exhausted => List.replicate n (.ok none)
  | .running =>
    playElements p.config p.files n p.cursor.origin (p.cursor.stream.elements.map Parsed.element)
      p.cursor.stream.error

theorem Player.foretold_of_running {p : Player} (h : p.state = .running) (n : Nat) :
    p.foretold n =
      playElements p.config p.files n p.cursor.origin
        (p.cursor.stream.elements.map Parsed.element) p.cursor.stream.error := by
  simp only [foretold, h]

theorem Player.foretold_of_exhausted {p : Player} (h : p.state = .exhausted) (n : Nat) :
    p.foretold n = List.replicate n (.ok none) := by
  simp only [foretold, h]

theorem Player.foretold_of_errored {p : Player} {error : ScriptError}
    (h : p.state = .errored error) (n : Nat) : p.foretold n = List.replicate n (.error error) := by
  simp only [foretold, h]

theorem Player.foretold_alike {p q : Player} (h : p.Alike q) (n : Nat) :
    q.foretold n = p.foretold n := by
  simp only [foretold, h.config, h.files, h.cursor, h.state]

/-- What is left of a stream behind its first element. -/
theorem Cursor.stream_of_cons {c : Cursor} {p : Parsed} {ps : List Parsed}
    (h : c.stream.elements = p :: ps) :
    ({ c with offset := p.stop } : Cursor).stream = ⟨ps, c.stream.error⟩ := by
  obtain ⟨-, hrest, herror⟩ := Text.scan_of_elements_cons h
  exact congrArg₂ Stream.mk hrest herror

namespace Engine

/-- No listener calls the engine, and a running engine has met no error. -/
structure Ready (e : Engine) : Prop where
  quiet : e.bus.Quiet
  unlatched : e.world.state = .running → e.world.cursor.latched = none

/-- The next of `n + 1` steps gives the first outcome that was foretold, and leaves the others and
an engine that is ready for them. -/
def AsForetold (e : Engine) (n : Nat) : Prop :=
  e.world.foretold (n + 1) = (next e).2 :: (next e).1.world.foretold n ∧ Ready (next e).1

section
variable {e : Engine} {p : Parsed} {ps : List Parsed}

/-- A background is set, and the script goes on. -/
theorem foretold_background (he : Ready e) (hs : e.world.state = .running)
    (hstream : e.world.cursor.stream.elements = p :: ps) {path : Text}
    (hp : p.element = .directive (.loadBackground path)) (n : Nat) : AsForetold e n := by
  have hl := he.unlatched hs
  have hadvance := Cursor.advance_of_stream_cons hl hstream
  have houtcome : e.world.cursor.advance.outcome = .ok (some p.element) := by rw [hadvance]
  have hnext : nextWith Engine.emit e = _ := nextWith_of_effect hs (hp ▸ houtcome)
    (effectOf_loadBackground e.world path)
  have hquiet : ((moved e).note (.taken (.directive (.loadBackground path)))).bus.Quiet := by
    simpa using he.quiet
  obtain ⟨hquiet', hworld⟩ := applyWith_background hquiet path
  simp only [Stage.world_note, world_moved, hadvance] at hworld
  rw [AsForetold, Player.foretold_of_running hs, hstream, List.map_cons, hp,
    playElements_of_not_jump (by simp), next, hnext]
  refine ⟨?_, hquiet', fun _ => ?_⟩
  · rw [hworld, Player.foretold_of_running (by exact hs)]
    simp only [Cursor.stream_of_cons hstream]
  · rw [hworld]
    exact hl

/-- A jump to what cannot be read stops the engine before the jump. -/
theorem foretold_unreadable (he : Ready e) (hs : e.world.state = .running)
    (hstream : e.world.cursor.stream.elements = p :: ps) {path : Text}
    {choices : Option (Text × Text)} (hp : p.element = .directive (.jump path choices))
    {reason : Reason}
    (hread : e.world.files.readText (jumpTarget e.world.config e.world.cursor.origin path)
      e.world.config.encoding = .error reason) (n : Nat) : AsForetold e n := by
  have hadvance := Cursor.advance_of_stream_cons (he.unlatched hs) hstream
  have houtcome : e.world.cursor.advance.outcome = .ok (some p.element) := by rw [hadvance]
  have hopen := openScript_eq e.world path
  simp only [hread] at hopen
  have hnext : nextWith Engine.emit e = _ :=
    nextWith_of_unreadable hs (hp ▸ houtcome) (by rw [effectOf, hopen])
  rw [AsForetold, Player.foretold_of_running hs, hstream, List.map_cons, hp,
    playElements_jump_unreadable hread, next, hnext]
  refine ⟨?_, by simpa [fail, rewind] using he.quiet, fun h => by simp [fail] at h⟩
  rw [Player.foretold_of_errored (by rfl)]
  rfl

/-- A jump leads to the start of its target. -/
theorem foretold_jump (he : Ready e) (hs : e.world.state = .running)
    (hstream : e.world.cursor.stream.elements = p :: ps) {path text : Text}
    {choices : Option (Text × Text)} (hp : p.element = .directive (.jump path choices))
    (hread : e.world.files.readText (jumpTarget e.world.config e.world.cursor.origin path)
      e.world.config.encoding = .ok text) (n : Nat) : AsForetold e n := by
  have hadvance := Cursor.advance_of_stream_cons (he.unlatched hs) hstream
  have houtcome : e.world.cursor.advance.outcome = .ok (some p.element) := by rw [hadvance]
  have hopen := openScript_eq e.world path
  simp only [hread] at hopen
  have hnext : nextWith Engine.emit e = _ :=
    nextWith_of_effect hs (hp ▸ houtcome) (by rw [effectOf, hopen])
  have hquiet : ((moved e).note (.taken (.directive (.jump path choices)))).bus.Quiet := by
    simpa using he.quiet
  obtain ⟨hquiet', hworld⟩ := applyWith_jump hquiet
    (.ofText text (some (jumpTarget e.world.config e.world.cursor.origin path).toText)) path choices
  rw [AsForetold, Player.foretold_of_running hs, hstream, List.map_cons, hp,
    playElements_jump hread, next, hnext]
  refine ⟨?_, hquiet', fun _ => ?_⟩
  · rw [hworld, Player.foretold_of_running (by simpa [Player.state] using hs)]
    simp only [Stage.world_note, world_moved]
    rfl
  · rw [hworld]

/-- A plain element is taken, and the script goes on. -/
theorem foretold_plain (he : Ready e) (hs : e.world.state = .running)
    (hstream : e.world.cursor.stream.elements = p :: ps) (hm : p.element.mark ≠ .directive)
    (n : Nat) : AsForetold e n := by
  have hl := he.unlatched hs
  have hadvance := Cursor.advance_of_stream_cons hl hstream
  have houtcome : e.world.cursor.advance.outcome = .ok (some p.element) := by rw [hadvance]
  have hj : ∀ path choices, p.element ≠ .directive (.jump path choices) := by
    intro path choices h
    rw [h] at hm
    exact hm rfl
  rw [AsForetold, Player.foretold_of_running hs, hstream, List.map_cons,
    playElements_of_not_jump hj, next, nextWith_of_plain hs houtcome hm]
  refine ⟨?_, by simpa using he.quiet, fun _ => ?_⟩
  · rw [Player.foretold_of_running (by simpa [Player.state] using hs)]
    simp only [Stage.world_note, world_moved, hadvance, Cursor.stream_of_cons hstream]
  · simpa [hadvance] using hl

/-- Where a text ends, or is at fault, the engine stops. -/
theorem foretold_ending (he : Ready e) (hs : e.world.state = .running)
    (hstream : e.world.cursor.stream.elements = []) (n : Nat) : AsForetold e n := by
  have houtcome := Cursor.outcome_of_stream_nil (he.unlatched hs) hstream
  rw [AsForetold, Player.foretold_of_running hs, hstream, List.map_nil, playElements_nil]
  cases herror : e.world.cursor.stream.error with
  | none =>
    simp only [Stream.ending, herror] at houtcome ⊢
    rw [next, nextWith_of_end hs houtcome]
    refine ⟨?_, by simpa using he.quiet, fun h => by simp at h⟩
    rw [Player.foretold_of_exhausted (by rfl)]
    rfl
  | some error =>
    simp only [Stream.ending, herror] at houtcome ⊢
    rw [next, nextWith_of_error hs houtcome]
    refine ⟨?_, by simpa [fail] using he.quiet, fun h => by simp [fail] at h⟩
    rw [Player.foretold_of_errored (by rfl)]
    rfl

end

/-- One step gives the first outcome of what is to come and leaves the others. -/
theorem next_foretold {e : Engine} (he : Ready e) (n : Nat) : AsForetold e n := by
  cases hs : e.world.state with
  | errored error =>
    rw [AsForetold, next, nextWith_of_errored hs, Player.foretold_of_errored hs,
      Player.foretold_of_errored hs]
    exact ⟨rfl, he⟩
  | exhausted =>
    rw [AsForetold, next, nextWith_of_exhausted hs, Player.foretold_of_exhausted hs,
      Player.foretold_of_exhausted hs]
    exact ⟨rfl, he⟩
  | running =>
    cases hstream : e.world.cursor.stream.elements with
    | nil => exact foretold_ending he hs hstream n
    | cons p ps =>
      by_cases hm : p.element.mark = .directive
      · obtain ⟨d, hd⟩ := Element.eq_directive_of_mark hm
        cases d with
        | loadBackground path => exact foretold_background he hs hstream hd n
        | jump path choices =>
          cases hread : e.world.files.readText
              (jumpTarget e.world.config e.world.cursor.origin path) e.world.config.encoding with
          | error reason => exact foretold_unreadable he hs hstream hd hread n
          | ok text => exact foretold_jump he hs hstream hd hread n
      · exact foretold_plain he hs hstream hm n

/-! ## Sessions -/

/-- The steps of a session give what was foretold, whatever idle requests come between. The
induction is on the requests; each leaves the engine ready for the next. -/
theorem outcomes_of_ready {e : Engine} (he : Ready e) {rs : List Request}
    (hr : ∀ r ∈ rs, r = .next ∨ r.Idle) :
    outcomes (serveAll e rs).2 = e.world.foretold (rs.countP Request.isNext) := by
  induction rs generalizing e with
  | nil =>
    unfold Player.foretold
    split <;> rfl
  | cons r rest ih =>
    have hrest : ∀ r ∈ rest, r = .next ∨ r.Idle := fun r h => hr r (List.mem_cons_of_mem _ h)
    rcases hr r (List.mem_cons_self ..) with rfl | hidle
    · obtain ⟨hforetold, hready⟩ := next_foretold he (rest.countP Request.isNext)
      rw [List.countP_cons_of_pos (by rfl), hforetold, ← ih hready hrest]
      rfl
    · obtain ⟨halike, hquiet, hanswer, hnot⟩ := serve_idle hidle he.quiet
      have hready : Ready (serve e r).1 := by
        refine ⟨hquiet, ?_⟩
        rw [halike.state, halike.cursor]
        exact he.unlatched
      have hskip : outcomes (serveAll e (r :: rest)).2
          = outcomes (serveAll (serve e r).1 rest).2 := by
        rw [serveAll, outcomes, List.filterMap_cons_none hanswer]
        rfl
      rw [hskip, ih hready hrest, Player.foretold_alike halike,
        List.countP_cons_of_neg (by simp [hnot])]

/-- The engine is about to play a text from its start, and no listener calls it. -/
structure Fresh (e : Engine) (origin : Option Text) (text : Text) : Prop where
  state : e.world.state = .running
  cursor : e.world.cursor = .ofText text origin
  quiet : e.bus.Quiet

theorem fresh_start (config : Config) (files : FileSystem) (decoder : Decoder)
    (origin : Option Text) (text : Text) :
    Fresh (start config files decoder (.ofText text origin)) origin text :=
  ⟨rfl, rfl, Bus.only_empty⟩

theorem fresh_ofFile {config : Config} {files : FileSystem} {decoder : Decoder} {path : Path}
    {shown : Text} {e : Engine} (h : ofFile config files decoder path shown = .ok e) :
    ∃ text, files.readText path config.encoding = .ok text ∧ Fresh e (some shown) text := by
  cases hread : files.readText path config.encoding with
  | error reason => simp [ofFile, Cursor.ofFile, hread] at h
  | ok text =>
    simp only [ofFile, Cursor.ofFile, hread, Except.ok.injEq] at h
    subst h
    exact ⟨text, rfl, rfl, rfl, Bus.only_empty⟩

/-- **Playing a script is its playback.** Whatever a session asks for between the steps of a fresh
engine, the steps give the playback of its text, and after an outcome without an element there is
only that outcome. -/
theorem outcomes_serveAll {e : Engine} {origin : Option Text} {text : Text}
    (he : Fresh e origin text) {rs : List Request} (hr : ∀ r ∈ rs, r = .next ∨ r.Idle) :
    outcomes (serveAll e rs).2 =
        playback e.world.config e.world.files (rs.countP Request.isNext) origin text ∧
      (outcomes (serveAll e rs).2).Pairwise fun a b => a.Stops → b = a := by
  have hready : Ready e := ⟨he.quiet, fun _ => by rw [he.cursor]⟩
  have houtcomes := outcomes_of_ready hready hr
  rw [Player.foretold_of_running he.state, he.cursor] at houtcomes
  refine ⟨houtcomes, ?_⟩
  rw [houtcomes]
  exact playElements_repeats ..

/-- A script that ends in a jump to a missing one. -/
def shelf : FileSystem :=
  FileSystem.nameless.install (Path.ofText "b.vn".toList)
    (.file (Utf8.encode "[Ada] hi\n@jump(c.vn)".toList))

def opening : Text := "# start\n@jump(b.vn)\n[Bob] lost".toList

/-- A session in which a listener answers every jump with an event, and fails. -/
def visit : List Request :=
  [.introduce "ear".toList (.always { actions := [.emit "echo".toList []], fails := true }),
    .subscribe "engine.jump".toList "ear".toList, .next, .peek, .next, .background, .next,
    .snapshot, .next, .next]

theorem visit_idle : ∀ r ∈ visit, r = .next ∨ r.Idle := by
  intro r hr
  simp only [visit, List.mem_cons, List.not_mem_nil, or_false] at hr
  rcases hr with rfl | rfl | rfl | rfl | rfl | rfl | rfl | rfl | rfl | rfl
  · refine .inr fun calls objects payload a ha => ?_
    obtain rfl : a = .emit "echo".toList [] := List.mem_singleton.1 ha
    exact Action.noConfusion
  all_goals first | exact .inl rfl | exact .inr trivial

def reader : Engine :=
  start {} shelf (fun _ path => .error (.missingFile path)) (.ofText opening none)

theorem outcomes_serveAll_visit :
    (Fresh reader none opening ∧ ∀ r ∈ visit, r = .next ∨ r.Idle) ∧
      outcomes (serveAll reader visit).2 = playback {} shelf 5 none opening ∧
      (outcomes (serveAll reader visit).2).Pairwise fun a b => a.Stops → b = a :=
  ⟨⟨fresh_start .., visit_idle⟩, outcomes_serveAll (fresh_start ..) visit_idle⟩

example : playback {} shelf 5 none opening =
    let lost : ScriptError :=
      { fault := .unreadable "c.vn".toList
          (.file (.refused .absent (Path.ofText "c.vn".toList))) }
    [.ok (some .comment), .ok (some (.directive (.jump "b.vn".toList none))),
      .ok (some (.dialogue "Ada".toList "hi".toList)), .error lost, .error lost] := by
  cbv

end Engine

end Playscript
