import Playscript.Proofs.Turns

/-!
# Peeking

A peek has no effect, and it tells what the next step is going to give. It parses and does no more,
so the only thing that it cannot foresee is a jump whose target turns out not to be readable.

* `nextWith_promised`: what a step gives, told by a peek.
* `Cursor.serveAll`: sessions with a bare cursor.
* `next_of_peeks`: any number of peeks, and the step after them.
-/

namespace Playscript

/-! ## Sessions with a cursor -/

namespace Cursor

/-- What one may ask of a cursor. -/
inductive Request
  | advance
  | peek
  | seek (offset : Int)
  deriving DecidableEq, Repr

inductive Answer
  | advanced (outcome : Engine.Outcome)
  | foretold (outcome : Engine.Outcome)
  | sought (refused : Option SeekRefused)

/-- A seek that is refused leaves the cursor as it was. -/
def serve (c : Cursor) : Request → Cursor × Answer
  | .advance => (c.advance.cursor, .advanced c.advance.outcome)
  | .peek => (c, .foretold c.peek)
  | .seek offset =>
    match c.seek offset with
    | .ok back => (back, .sought none)
    | .error refused => (c, .sought (some refused))

def serveAll : Cursor → List Request → Cursor × List Answer
  | c, [] => (c, [])
  | c, r :: rest =>
    let served := c.serve r
    let later := serveAll served.1 rest
    (later.1, served.2 :: later.2)

theorem serveAll_peeks (c : Cursor) (k : Nat) :
    c.serveAll (List.replicate k .peek) = (c, List.replicate k (.foretold c.peek)) := by
  induction k with
  | zero => rfl
  | succ k ih => simp only [List.replicate_succ, serveAll, serve, ih]

end Cursor

namespace Engine

/-! ## What a peek can tell -/

/-- The outcome of the next step of a player if that of a peek is known. The two differ where a jump
leads to what cannot be read. -/
def promised (p : Player) : Outcome → Outcome
  | .ok (some (.directive (.jump path choices))) =>
    match p.files.readText (resolvePath p path) p.config.encoding with
    | .error reason => .error { fault := .unreadable (resolvePath p path).toText reason }
    | .ok _ => .ok (some (.directive (.jump path choices)))
  | o => o

theorem promised_of_plain (p : Player) {element : Element} (h : element.mark ≠ .directive) :
    promised p (.ok (some element)) = .ok (some element) := by
  cases element with
  | directive d => exact absurd rfl h
  | dialogue name body => rfl
  | comment => rfl

/-- A directive is promised as far as its effect is possible. -/
theorem promised_of_directive (p : Player) (d : Directive) :
    promised p (.ok (some (.directive d))) =
      match effectOf p d with
      | .error error => .error error
      | .ok _ => .ok (some (.directive d)) := by
  cases d with
  | loadBackground path => rfl
  | jump path choices =>
    simp only [promised, effectOf, openScript, Cursor.ofFile]
    cases p.files.readText (resolvePath p path) p.config.encoding <;> rfl

theorem peek_of_running {e : Engine} (h : e.world.state = .running) :
    peek e = e.world.cursor.advance.outcome := by
  rw [Cursor.outcome_advance]
  simp only [peek, h]

/-- A step gives what a peek has told, but for a jump to what cannot be read. -/
theorem nextWith_promised (emit : Stage.Emitter Player) (e : Engine) :
    (nextWith emit e).2 = promised e.world (peek e) := by
  cases e.world.sort with
  | stopped h =>
    rw [nextWith_of_verdict h, peek_of_verdict h]
    rcases PlayState.verdict?_eq_some h with ⟨error, -, rfl⟩ | ⟨-, rfl⟩ <;> rfl
  | failing hs h =>
    rw [nextWith_of_error hs h, peek_of_running hs, h]
    rfl
  | ending hs h =>
    rw [nextWith_of_end hs h, peek_of_running hs, h]
    rfl
  | plain hs h hm => rw [nextWith_of_plain hs h hm, peek_of_running hs, h, promised_of_plain _ hm]
  | impossible hs h he =>
    rw [nextWith_of_unreadable hs h he, peek_of_running hs, h, promised_of_directive, he]
  | possible hs h he =>
    rw [nextWith_of_effect hs h he, peek_of_running hs, h, promised_of_directive, he]

/-! ## Any number of peeks -/

/-- The player and the bus are as they were, and nothing has happened that is not a log record. -/
structure Untouched (e after : Engine) : Prop where
  world : after.world = e.world
  bus : after.bus = e.bus
  journal : ∃ records : List Record, after.journal = e.journal ++ records.map .logged

theorem Untouched.refl (e : Engine) : Untouched e e := ⟨rfl, rfl, [], by simp⟩

theorem Untouched.trans {e f g : Engine} (h : Untouched e f) (h' : Untouched f g) :
    Untouched e g := by
  obtain ⟨records, hrecords⟩ := h.journal
  obtain ⟨more, hmore⟩ := h'.journal
  refine ⟨h'.world.trans h.world, h'.bus.trans h.bus, records ++ more, ?_⟩
  rw [hmore, hrecords, List.map_append, List.append_assoc]

theorem untouched_peeked (e : Engine) : Untouched e (peeked e) := by
  refine ⟨(peeked_eq e).1, (peeked_eq e).2, ?_⟩
  unfold peeked
  split
  · exact ⟨_, Stage.journal_logAll ..⟩
  · exact ⟨[], by simp⟩

theorem Untouched.peek {e after : Engine} (h : Untouched e after) : peek after = peek e := by
  simp only [Engine.peek, h.world]

theorem serveAll_peeks (e : Engine) (k : Nat) :
    (serveAll e (List.replicate k .peek)).2 = List.replicate k (.foretold (peek e)) ∧
      Untouched e (serveAll e (List.replicate k .peek)).1 := by
  induction k generalizing e with
  | zero => exact ⟨rfl, .refl e⟩
  | succ k ih =>
    obtain ⟨hanswers, huntouched⟩ := ih (peeked e)
    have hfirst := untouched_peeked e
    refine ⟨?_, hfirst.trans huntouched⟩
    rw [hfirst.peek] at hanswers
    rw [List.replicate_succ, List.replicate_succ, serveAll]
    exact congrArg _ hanswers

/-- **A peek has no effect and foretells the step.** However often an engine is peeked at, it tells
the same and stays as it is, but for its log. The step that follows, be it the caller's or that of
a listener, gives just this, and an error where the jump that was told of cannot be made. A cursor
that is peeked at stays as it is and foretells its advance without exception. -/
theorem next_of_peeks :
    (∀ (e : Engine) (k : Nat),
      let peeks := serveAll e (List.replicate k .peek)
      peeks.2 = List.replicate k (.foretold (peek e)) ∧ Untouched e peeks.1 ∧
        ∀ emit, (nextWith emit peeks.1).2 = promised e.world (peek e)) ∧
    (∀ (c : Cursor) (k : Nat),
      c.serveAll (List.replicate k .peek) = (c, List.replicate k (.foretold c.peek)) ∧
        c.serve .advance = (c.advance.cursor, .advanced c.peek)) := by
  refine ⟨fun e k => ?_, fun c k => ⟨c.serveAll_peeks k, ?_⟩⟩
  · obtain ⟨hanswers, huntouched⟩ := serveAll_peeks e k
    refine ⟨hanswers, huntouched, fun emit => ?_⟩
    rw [nextWith_promised, huntouched.peek, huntouched.world]
  · rw [Cursor.serve, Cursor.outcome_advance]

end Engine

end Playscript
