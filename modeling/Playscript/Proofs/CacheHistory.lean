import Mathlib
import Playscript.ImageCache

/-!
# What a cache remembers

A cache is asked for one thing after the other, and a history keeps what came of each request: the
answer, and the paths that went to the decoder. All that a cache holds and counts can be read off
its history. A path is decoded until that succeeds for the first time, and never again; what it gave
then is what every later request for it gives.

* `Desk.serveAll`: sessions with a cache, and their histories.
* `loadCase`: the ways in which a load can go.
* `recorded_serve`, `recorded_serveAll`: what a cache holds and counts is what its history says.
* `loads_remembered`: what the next request comes to, told from the history.
-/

namespace Playscript

namespace ImageCache

/-! ## Histories -/

/-- What one may ask of a cache. -/
inductive Request
  | load (path : Text)
  | get (path : Text)
  | has (path : Text)
  | size
  | resolve (path : Text)
  | stats
  deriving DecidableEq, Repr

/-- The numbers that a cache gives about itself. -/
structure Stats where
  entries : Nat
  hits : Nat
  misses : Nat
  deriving DecidableEq, Repr

def stats (c : ImageCache) : Stats := ⟨c.size, c.hits, c.misses⟩

inductive Answer
  | loaded (answer : Except ImageError (Option Picture))
  | found (picture : Option Picture)
  | held (b : Bool)
  | counted (n : Nat)
  | resolved (answer : Except ImageError Text)
  | shown (stats : Stats)
  deriving DecidableEq, Repr

/-- What came of a request: the paths that went to the decoder, and the answer. -/
structure Event where
  request : Request
  decoded : List Text := []
  answer : Answer
  deriving DecidableEq, Repr

/-- A cache at work, and how often its decoder has been called so far. -/
structure Desk where
  cache : ImageCache
  calls : Nat

def Desk.serve (decode : Decoder) (d : Desk) : Request → Desk × Event
  | .load path =>
    let load := d.cache.load decode d.calls path
    (⟨load.cache, load.calls⟩, ⟨.load path, load.decoded, .loaded load.answer⟩)
  | .get path => (d, ⟨.get path, [], .found (d.cache.get? path)⟩)
  | .has path => (d, ⟨.has path, [], .held (d.cache.has path)⟩)
  | .size => (d, ⟨.size, [], .counted d.cache.size⟩)
  | .resolve path => (d, ⟨.resolve path, [], .resolved (d.cache.resolve path)⟩)
  | .stats => (d, ⟨.stats, [], .shown d.cache.stats⟩)

/-- A session with a cache: the cache after it, and its history. -/
def Desk.serveAll (decode : Decoder) : Desk → List Request → Desk × List Event
  | d, [] => (d, [])
  | d, r :: rest =>
    let served := d.serve decode r
    let later := serveAll decode served.1 rest
    (later.1, served.2 :: later.2)

/-- The path of a load that has returned, whatever it gave. -/
def Event.loaded? : Event → Option Text
  | ⟨.load path, _, .loaded (.ok _)⟩ => some path
  | _ => none

/-- What the decoder gave for a path, where it was called and did not fail. -/
def Event.decoding? (path : Text) : Event → Option (Option Picture)
  | ⟨.load other, _ :: _, .loaded (.ok picture)⟩ => if other = path then some picture else none
  | _ => none

/-- The paths of the loads that have returned, in order and as often as they have. -/
def loadedPaths (es : List Event) : List Text := es.filterMap Event.loaded?

/-- What the first successful call of the decoder for a path gave. -/
def firstDecoded (es : List Event) (path : Text) : Option (Option Picture) :=
  es.findSome? (Event.decoding? path)

/-- The paths that went to the decoder. -/
def decoderCalls (es : List Event) : List Text := es.flatMap Event.decoded

/-! ## One load -/

/-- The ways in which a load can go: the path is there, cannot be resolved, or goes to the decoder,
which fails or does not. -/
inductive LoadCase (c : ImageCache) (decode : Decoder) (calls : Nat) (path : Text) : Prop
  | hit {image : CachedImage} (hf : c.images.find? path = some image)
      (h : c.load decode calls path =
        { cache :=
            { c with hits := c.hits + 1
                     images := c.images.put path { image with uses := image.uses + 1 } }
          calls
          answer := .ok image.picture })
  | unresolved {e : ImageError} (hf : c.images.find? path = none) (hr : c.resolve path = .error e)
      (h : c.load decode calls path = { cache := c, calls, answer := .error e })
  | undecodable {resolved : Text} {e : LoadFailure} (hf : c.images.find? path = none)
      (hr : c.resolve path = .ok resolved) (hd : decode (calls + 1) resolved = .error e)
      (h : c.load decode calls path =
        { cache := c, calls := calls + 1, decoded := [resolved], answer := .error (.decoder e) })
  | decoded {resolved : Text} {picture : Option Picture} (hf : c.images.find? path = none)
      (hr : c.resolve path = .ok resolved) (hd : decode (calls + 1) resolved = .ok picture)
      (h : c.load decode calls path =
        { cache :=
            { c with misses := c.misses + 1, images := c.images.put path (entryOf picture) }
          calls := calls + 1
          decoded := [resolved]
          answer := .ok picture })

theorem loadCase (c : ImageCache) (decode : Decoder) (calls : Nat) (path : Text) :
    LoadCase c decode calls path := by
  cases hf : c.images.find? path with
  | some image => exact .hit hf (by simp only [load, hf])
  | none =>
    cases hr : c.resolve path with
    | error e => exact .unresolved hf hr (by simp only [load, hf, hr])
    | ok resolved =>
      cases hd : decode (calls + 1) resolved with
      | error e => exact .undecodable hf hr hd (by simp only [load, hf, hr, hd])
      | ok picture => exact .decoded hf hr hd (by simp only [load, hf, hr, hd])

/-! ## What the history says of the cache -/

/-- What is kept of a picture that was loaded a number of times. -/
def entryUsed (uses : Nat) (picture : Option Picture) : CachedImage :=
  { entryOf picture with uses }

/-- A cache that started empty holds and counts what its history says. -/
structure Recorded (base : Json) (start : Nat) (es : List Event) (d : Desk) : Prop where
  base : d.cache.base = base
  calls : d.calls = start + (decoderCalls es).length
  image : ∀ path, d.cache.images.find? path =
    (firstDecoded es path).map (entryUsed ((loadedPaths es).count path))
  known : ∀ path, path ∈ loadedPaths es ↔ (firstDecoded es path).isSome
  nodup : d.cache.images.keys.Nodup
  misses : d.cache.misses = d.cache.images.length
  loads : d.cache.hits + d.cache.misses = (loadedPaths es).length

section
variable {base : Json} {start : Nat} {es : List Event} {d : Desk} {e : Event} {path : Text}

theorem loadedPaths_append : loadedPaths (es ++ [e]) = loadedPaths es ++ e.loaded?.toList := by
  cases h : e.loaded? <;> simp [loadedPaths, h]

theorem firstDecoded_append :
    firstDecoded (es ++ [e]) path = (firstDecoded es path).or (e.decoding? path) := by
  simp [firstDecoded, List.findSome?_append]

theorem decoderCalls_append : decoderCalls (es ++ [e]) = decoderCalls es ++ e.decoded := by
  simp [decoderCalls]

theorem recorded_fresh : Recorded base start [] ⟨{ base }, start⟩ where
  base := rfl
  calls := rfl
  image _ := rfl
  known _ := by simp [loadedPaths, firstDecoded]
  nodup := List.nodup_nil
  misses := rfl
  loads := rfl

namespace Recorded

/-- What is in the cache has been loaded, and the other way round. -/
theorem mem_keys (h : Recorded base start es d) :
    path ∈ d.cache.images.keys ↔ path ∈ loadedPaths es := by
  have hnone := Table.find?_eq_none_iff d.cache.images path
  rw [h.image path, Option.map_eq_none_iff] at hnone
  rw [h.known path, ← Option.ne_none_iff_isSome, ne_eq, hnone, not_not]

theorem find?_eq_none (h : Recorded base start es d) :
    d.cache.images.find? path = none ↔ path ∉ loadedPaths es := by
  rw [Table.find?_eq_none_iff, h.mem_keys]

theorem firstDecoded_of_not_mem (h : Recorded base start es d) (hp : path ∉ loadedPaths es) :
    firstDecoded es path = none := by
  rw [h.known] at hp
  simpa using hp

/-- An event in which nothing was loaded says nothing new of the cache. -/
theorem idle (h : Recorded base start es d) (hl : e.loaded? = none)
    (hd : ∀ path, e.decoding? path = none) {calls : Nat}
    (hc : calls = d.calls + e.decoded.length) :
    Recorded base start (es ++ [e]) ⟨d.cache, calls⟩ := by
  have hpaths : loadedPaths (es ++ [e]) = loadedPaths es := by
    rw [loadedPaths_append, hl, Option.toList_none, List.append_nil]
  have hfirst (path : Text) : firstDecoded (es ++ [e]) path = firstDecoded es path := by
    rw [firstDecoded_append, hd, Option.or_none]
  constructor
  · exact h.base
  · show calls = start + (decoderCalls (es ++ [e])).length
    rw [hc, h.calls, decoderCalls_append, List.length_append, Nat.add_assoc]
  · intro path
    rw [hfirst, hpaths]
    exact h.image path
  · intro path
    rw [hfirst, hpaths]
    exact h.known path
  · exact h.nodup
  · exact h.misses
  · rw [hpaths]
    exact h.loads

/-- A path that is there is loaded once more. -/
theorem hit (h : Recorded base start es d) {image : CachedImage}
    (hf : d.cache.images.find? path = some image) :
    Recorded base start (es ++ [⟨.load path, [], .loaded (.ok image.picture)⟩])
      ⟨{ d.cache with
          hits := d.cache.hits + 1
          images := d.cache.images.put path { image with uses := image.uses + 1 } }, d.calls⟩ := by
  have hfirst (other : Text) :
      firstDecoded (es ++ [⟨.load path, [], .loaded (.ok image.picture)⟩]) other
        = firstDecoded es other := by
    rw [firstDecoded_append]
    exact Option.or_none
  have hpaths : loadedPaths (es ++ [⟨.load path, [], .loaded (.ok image.picture)⟩])
      = loadedPaths es ++ [path] := loadedPaths_append
  have hmem : path ∈ loadedPaths es := by
    by_contra hp
    rw [h.find?_eq_none.2 hp] at hf
    cases hf
  constructor
  · exact h.base
  · rw [decoderCalls_append, List.append_nil]
    exact h.calls
  · intro other
    rw [hfirst, hpaths]
    by_cases ho : other = path
    · subst ho
      have himage := h.image other
      rw [hf] at himage
      obtain ⟨picture, hpicture, rfl⟩ := Option.map_eq_some_iff.1 himage.symm
      rw [Table.find?_put_self, hpicture, List.count_append, List.count_singleton_self]
      rfl
    · rw [Table.find?_put_of_ne _ ho, h.image other, List.count_append,
        List.count_singleton, if_neg (by simpa using Ne.symm ho), Nat.add_zero]
  · intro other
    rw [hfirst, hpaths, ← h.known, List.mem_append, List.mem_singleton]
    constructor
    · rintro (ho | rfl)
      · exact ho
      · exact hmem
    · exact .inl
  · exact Table.nodup_keys_put h.nodup _ _
  · rw [Table.length_put, if_pos (h.mem_keys.2 hmem)]
    exact h.misses
  · have hloads := h.loads
    show d.cache.hits + 1 + d.cache.misses = _
    rw [hpaths, List.length_append, List.length_singleton]
    omega

/-- A path that was not there is decoded and kept. -/
theorem decoded (h : Recorded base start es d) {resolved : Text} {picture : Option Picture}
    (hf : d.cache.images.find? path = none) :
    Recorded base start (es ++ [⟨.load path, [resolved], .loaded (.ok picture)⟩])
      ⟨{ d.cache with
          misses := d.cache.misses + 1
          images := d.cache.images.put path (entryOf picture) }, d.calls + 1⟩ := by
  have hnew : path ∉ loadedPaths es := h.find?_eq_none.1 hf
  have hpaths : loadedPaths (es ++ [⟨.load path, [resolved], .loaded (.ok picture)⟩])
      = loadedPaths es ++ [path] := loadedPaths_append
  have hfirst (other : Text) :
      firstDecoded (es ++ [⟨.load path, [resolved], .loaded (.ok picture)⟩]) other
        = (firstDecoded es other).or (if path = other then some picture else none) :=
    firstDecoded_append
  constructor
  · exact h.base
  · rw [decoderCalls_append, List.length_append, List.length_singleton, ← Nat.add_assoc, h.calls]
  · intro other
    rw [hfirst, hpaths]
    by_cases ho : other = path
    · subst ho
      rw [Table.find?_put_self, h.firstDecoded_of_not_mem hnew, Option.none_or, if_pos rfl,
        List.count_append, List.count_eq_zero.2 hnew, List.count_singleton_self]
      rfl
    · rw [Table.find?_put_of_ne _ ho, h.image other, if_neg (Ne.symm ho), Option.or_none,
        List.count_append, List.count_singleton, if_neg (by simpa using Ne.symm ho), Nat.add_zero]
  · intro other
    rw [hfirst, hpaths, List.mem_append, List.mem_singleton, h.known, Option.isSome_or]
    by_cases ho : path = other
    · simp [ho]
    · simp [ho, Ne.symm ho]
  · exact Table.nodup_keys_put h.nodup _ _
  · rw [Table.length_put, if_neg (mt h.mem_keys.1 hnew), ← h.misses]
  · have hloads := h.loads
    show d.cache.hits + (d.cache.misses + 1) = _
    rw [hpaths, List.length_append, List.length_singleton]
    omega

end Recorded

/-- What is asked next is recorded as well. -/
theorem recorded_serve (decode : Decoder) (h : Recorded base start es d) (r : Request) :
    Recorded base start (es ++ [(d.serve decode r).2]) (d.serve decode r).1 := by
  cases r with
  | load path =>
    cases d.cache.loadCase decode d.calls path with
    | hit hf hload =>
      simp only [Desk.serve, hload]
      exact h.hit hf
    | unresolved hf hr hload =>
      simp only [Desk.serve, hload]
      exact h.idle rfl (fun _ => rfl) rfl
    | undecodable hf hr hd hload =>
      simp only [Desk.serve, hload]
      exact h.idle rfl (fun _ => rfl) rfl
    | decoded hf hr hd hload =>
      simp only [Desk.serve, hload]
      exact h.decoded hf
  | _ => exact h.idle rfl (fun _ => rfl) rfl

theorem recorded_append (decode : Decoder) (h : Recorded base start es d) (rs : List Request) :
    Recorded base start (es ++ (d.serveAll decode rs).2) (d.serveAll decode rs).1 := by
  induction rs generalizing es d with
  | nil =>
    rw [Desk.serveAll, List.append_nil]
    exact h
  | cons r rest ih =>
    have hrest := ih (recorded_serve decode h r)
    rw [List.append_assoc] at hrest
    exact hrest

end

/-- What a session with a cache leaves behind is what its history says. -/
theorem recorded_serveAll (decode : Decoder) (base : Json) (start : Nat) (rs : List Request) :
    Recorded base start (Desk.serveAll decode ⟨{ base }, start⟩ rs).2
      (Desk.serveAll decode ⟨{ base }, start⟩ rs).1 :=
  recorded_append decode recorded_fresh rs

/-! ## What is read off the history -/

namespace Recorded

variable {base : Json} {start : Nat} {es : List Event} {d : Desk} {path : Text}

theorem resolve (h : Recorded base start es d) (path : Text) :
    d.cache.resolve path = ({ base } : ImageCache).resolve path := by
  simp only [ImageCache.resolve, h.base]

theorem get? (h : Recorded base start es d) (path : Text) :
    d.cache.get? path = (firstDecoded es path).join := by
  rw [ImageCache.get?, h.image]
  cases firstDecoded es path <;> rfl

theorem has (h : Recorded base start es d) (path : Text) :
    d.cache.has path = decide (path ∈ loadedPaths es) := by
  rw [Bool.eq_iff_iff, decide_eq_true_iff, h.known, ImageCache.has, h.image, Option.isSome_map]

/-- The paths of a cache are those that were loaded, each once. -/
theorem keys_perm (h : Recorded base start es d) :
    d.cache.images.keys.Perm (loadedPaths es).dedup := by
  rw [List.perm_ext_iff_of_nodup h.nodup (List.nodup_dedup _)]
  intro path
  rw [h.mem_keys, List.mem_dedup]

theorem length_images (h : Recorded base start es d) :
    d.cache.images.length = (loadedPaths es).dedup.length := by
  have hlength := h.keys_perm.length_eq
  rwa [Table.keys, List.length_map] at hlength

theorem uses_of_mem (h : Recorded base start es d) {image : CachedImage}
    (hm : (path, image) ∈ d.cache.images) : image.uses = (loadedPaths es).count path := by
  have himage := h.image path
  rw [Table.find?_of_mem h.nodup hm] at himage
  obtain ⟨picture, -, rfl⟩ := Option.map_eq_some_iff.1 himage.symm
  rfl

theorem sum_uses (h : Recorded base start es d) :
    (d.cache.images.map fun entry => entry.2.uses).sum = (loadedPaths es).length := by
  have huses : d.cache.images.map (fun entry => entry.2.uses)
      = d.cache.images.keys.map fun path => (loadedPaths es).count path := by
    rw [Table.keys, List.map_map]
    apply List.map_congr_left
    intro entry hentry
    exact h.uses_of_mem hentry
  -- Texts are compared as lists, and the library's lemma compares by decidable equality.
  rw [huses, (h.keys_perm.map fun path => (loadedPaths es).count path).sum_eq,
    @lawful_beq_subsingleton Text List.instBEq instBEqOfDecidableEq]
  exact List.sum_map_count_dedup_eq_length (loadedPaths es)

end Recorded

/-- The ways in which the next load can go, told from the history: the path was loaded before, goes
to the decoder, or cannot be resolved. -/
inductive NextLoad (decode : Decoder) (base : Json) (start : Nat) (es : List Event) (path : Text)
    (e : Event) : Prop
  | known {picture : Option Picture} (hp : path ∈ loadedPaths es)
      (hf : firstDecoded es path = some picture)
      (h : e = ⟨.load path, [], .loaded (.ok picture)⟩)
  | new {resolved : Text} (hp : path ∉ loadedPaths es) (hf : firstDecoded es path = none)
      (hr : ({ base } : ImageCache).resolve path = .ok resolved)
      (h : e = ⟨.load path, [resolved],
        .loaded ((decode (start + (decoderCalls es).length + 1) resolved).mapError .decoder)⟩)
  | unresolved {error : ImageError} (hp : path ∉ loadedPaths es)
      (hr : ({ base } : ImageCache).resolve path = .error error)
      (h : e = ⟨.load path, [], .loaded (.error error)⟩)

theorem Recorded.nextLoad {base : Json} {start : Nat} {es : List Event} {d : Desk}
    (h : Recorded base start es d) (decode : Decoder) (path : Text) :
    NextLoad decode base start es path (d.serve decode (.load path)).2 := by
  cases d.cache.loadCase decode d.calls path with
  | @hit image hf hload =>
    have himage := h.image path
    rw [hf] at himage
    obtain ⟨picture, hfirst, rfl⟩ := Option.map_eq_some_iff.1 himage.symm
    refine .known ((h.known path).2 (by rw [hfirst]; rfl)) hfirst ?_
    simp only [Desk.serve, hload]
    rfl
  | unresolved hf hr hload =>
    refine .unresolved (h.find?_eq_none.1 hf) (h.resolve path ▸ hr) ?_
    simp only [Desk.serve, hload]
  | undecodable hf hr hd hload =>
    have hp := h.find?_eq_none.1 hf
    refine .new hp (h.firstDecoded_of_not_mem hp) (h.resolve path ▸ hr) ?_
    simp only [Desk.serve, hload, ← h.calls, hd]
    rfl
  | decoded hf hr hd hload =>
    have hp := h.find?_eq_none.1 hf
    refine .new hp (h.firstDecoded_of_not_mem hp) (h.resolve path ▸ hr) ?_
    simp only [Desk.serve, hload, ← h.calls, hd]
    rfl

/-- What is asked of a cache next, and what the cache counts, told from its history. -/
structure Remembers (decode : Decoder) (base : Json) (start : Nat) (es : List Event) (d : Desk) :
    Prop where
  /-- A load calls the decoder once and with the resolved path, as long as no load of the path has
  returned and the path can be resolved. -/
  decoded_iff : ∀ path resolved, (d.serve decode (.load path)).2.decoded = [resolved] ↔
    path ∉ loadedPaths es ∧ ({ base } : ImageCache).resolve path = .ok resolved
  /-- Otherwise it does not call it. -/
  decoded_eq_nil_iff : ∀ path, (d.serve decode (.load path)).2.decoded = [] ↔
    path ∈ loadedPaths es ∨ ∃ e, ({ base } : ImageCache).resolve path = .error e
  /-- A load that calls the decoder answers what that gives. -/
  answer_of_decoded : ∀ path resolved, (d.serve decode (.load path)).2.decoded = [resolved] →
    (d.serve decode (.load path)).2.answer =
      .loaded ((decode (start + (decoderCalls es).length + 1) resolved).mapError .decoder)
  /-- A load that returns gives what the decoder gave for the path first. -/
  first_of_returned : ∀ path picture,
    (d.serve decode (.load path)).2.answer = .loaded (.ok picture) →
      firstDecoded (es ++ [(d.serve decode (.load path)).2]) path = some picture
  /-- A path that was loaded is never refused. -/
  returned_of_known : ∀ path ∈ loadedPaths es, ∃ picture, firstDecoded es path = some picture ∧
    (d.serve decode (.load path)).2.answer = .loaded (.ok picture)
  /-- A load that fails leaves no trace. -/
  cache_of_failed : ∀ path e, (d.serve decode (.load path)).2.answer = .loaded (.error e) →
    (d.serve decode (.load path)).1.cache = d.cache
  get : ∀ path, (d.serve decode (.get path)).2.answer = .found (firstDecoded es path).join
  has : ∀ path, (d.serve decode (.has path)).2.answer = .held (decide (path ∈ loadedPaths es))
  size : (d.serve decode .size).2.answer = .counted (loadedPaths es).dedup.length
  resolve : ∀ path, (d.serve decode (.resolve path)).2.answer =
    .resolved (({ base } : ImageCache).resolve path)
  stats : (d.serve decode .stats).2.answer = .shown d.cache.stats
  /-- Whatever else is asked, the decoder is not called and nothing changes. -/
  idle : ∀ r, (∀ path, r ≠ .load path) →
    (d.serve decode r).2.decoded = [] ∧ (d.serve decode r).1 = d
  entries : d.cache.stats.entries = (loadedPaths es).dedup.length
  misses : d.cache.stats.misses = (loadedPaths es).dedup.length
  loads : d.cache.stats.hits + d.cache.stats.misses = (loadedPaths es).length
  uses : ∀ path image, (path, image) ∈ d.cache.images → image.uses = (loadedPaths es).count path
  sum_uses : (d.cache.images.map fun entry => entry.2.uses).sum =
    d.cache.stats.hits + d.cache.stats.misses

/-- **A cache remembers its loads.** After any session with a cache that started empty, whatever
its decoder and its base, the next answer and all numbers follow from the loads that have returned
so far. -/
theorem loads_remembered (decode : Decoder) (base : Json) (start : Nat) (rs : List Request) :
    Remembers decode base start (Desk.serveAll decode ⟨{ base }, start⟩ rs).2
      (Desk.serveAll decode ⟨{ base }, start⟩ rs).1 := by
  have h := recorded_serveAll decode base start rs
  generalize (Desk.serveAll decode ⟨{ base }, start⟩ rs).2 = es at h
  generalize (Desk.serveAll decode ⟨{ base }, start⟩ rs).1 = d at h
  constructor
  case decoded_iff =>
    intro path resolved
    cases h.nextLoad decode path with
    | known hp hf he => simp [he, hp]
    | new hp hf hr he => simp [he, hp, hr, eq_comm]
    | unresolved hp hr he => simp [he, hr]
  case decoded_eq_nil_iff =>
    intro path
    cases h.nextLoad decode path with
    | known hp hf he => simp [he, hp]
    | new hp hf hr he => simp [he, hp, hr]
    | unresolved hp hr he => simp [he, hr]
  case answer_of_decoded =>
    intro path resolved hdecoded
    cases h.nextLoad decode path with
    | known hp hf he => simp [he] at hdecoded
    | new hp hf hr he =>
      rw [he] at hdecoded ⊢
      obtain rfl := List.singleton_inj.1 hdecoded
      rfl
    | unresolved hp hr he => simp [he] at hdecoded
  case first_of_returned =>
    intro path picture hanswer
    rw [firstDecoded_append]
    cases h.nextLoad decode path with
    | known hp hf he =>
      rw [he] at hanswer
      cases hanswer
      rw [hf, Option.some_or]
    | new hp hf hr he =>
      rw [he] at hanswer ⊢
      rw [hf, Option.none_or, Event.decoding?.eq_def]
      simp only [Answer.loaded.injEq] at hanswer
      simp only [hanswer, if_true]
    | unresolved hp hr he =>
      rw [he] at hanswer
      cases hanswer
  case returned_of_known =>
    intro path hp
    cases h.nextLoad decode path with
    | known _ hf he => exact ⟨_, hf, by rw [he]⟩
    | new hn => exact absurd hp hn
    | unresolved hn => exact absurd hp hn
  case cache_of_failed =>
    intro path e hanswer
    exact load_of_error (Answer.loaded.inj hanswer)
  case get => exact fun path => congrArg Answer.found (h.get? path)
  case has => exact fun path => congrArg Answer.held (h.has path)
  case size => exact congrArg Answer.counted h.length_images
  case resolve => exact fun path => congrArg Answer.resolved (h.resolve path)
  case stats => rfl
  case idle =>
    intro r hr
    cases r with
    | load path => exact absurd rfl (hr path)
    | _ => exact ⟨rfl, rfl⟩
  case entries => exact h.length_images
  case misses => exact h.misses.trans h.length_images
  case loads => exact h.loads
  case uses => exact fun path image => h.uses_of_mem
  case sum_uses => exact h.sum_uses.trans h.loads.symm

/-- A decoder that fails at its first call, and never gives a picture. -/
def blind : Decoder := fun call path => if call = 1 then .error (.undecodable path) else .ok none

/-- The failure is forgotten, and that there is no picture is remembered. -/
example :
    ((Desk.serveAll blind ⟨{ base := .str "art".toList }, 0⟩
        [.load "a.png".toList, .load "a.png".toList, .load "a.png".toList, .stats]).2.map
      fun e => (e.decoded, e.answer)) =
    [(["art/a.png".toList], .loaded (.error (.decoder (.undecodable "art/a.png".toList)))),
      (["art/a.png".toList], .loaded (.ok none)), ([], .loaded (.ok none)),
      ([], .shown ⟨1, 1, 1⟩)] := by
  decide +kernel

end ImageCache

end Playscript
