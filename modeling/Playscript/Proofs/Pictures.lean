import Playscript.Proofs.Onlookers
import Playscript.Proofs.Reentrance
import Playscript.Proofs.Trace

/-!
# Pictures

An engine has a cache for backgrounds and one for portraits, and one decoder for both. Only those
who ask for a picture have it decoded, and only in the cache that the picture belongs to. The script
has no part in that: it names the background, which is then looked up when somebody asks for it. A
picture that was once given for a path stays the picture of this path, whatever scripts and other
backgrounds come in between.

* `ImageCache.Gives`: a cache that has a picture for a path.
* `serve_background_of_some`, `serve_portrait`: what comes of asking for a picture.
* `keeps_unpictured`: nothing else touches a cache or has anything decoded.
* `lasting_gives`: a background that was given is kept.
* `Player.Follows.background`: the background at any moment is the last that was set.
* `pictures_when_asked`: all this for sessions.
-/

namespace Playscript

open Engine (serveWith unheard elementsOf elementsOf_cons_of_stops)

/-! ## Caches -/

namespace ImageCache

variable {c : ImageCache} {decode : Decoder} {calls : Nat} {path : Text}
  {picture : Option Picture}

/-- The cache has this for the path. -/
def Gives (c : ImageCache) (path : Text) (picture : Option Picture) : Prop :=
  (c.images.find? path).map CachedImage.picture = some picture

/-- A load that gives anything puts it into the cache, and is counted. -/
theorem cache_of_loaded (h : (c.load decode calls path).answer = .ok picture) :
    ∃ image : CachedImage, image.picture = picture ∧
      (c.load decode calls path).cache.images = c.images.put path image ∧
      ((c.load decode calls path).cache.hits = c.hits + 1 ∨
        (c.load decode calls path).cache.misses = c.misses + 1) := by
  cases c.loadCase decode calls path with
  | @hit image hf hload =>
    rw [hload] at h ⊢
    exact ⟨{ image with uses := image.uses + 1 }, Except.ok.inj h, rfl, .inl rfl⟩
  | unresolved hf hr hload =>
    rw [hload] at h
    cases h
  | undecodable hf hr hd hload =>
    rw [hload] at h
    cases h
  | @decoded resolved found hf hr hd hload =>
    rw [hload] at h ⊢
    exact ⟨entryOf found, Except.ok.inj h, rfl, .inr rfl⟩

/-- What a load gives the cache has from then on. -/
theorem gives_of_loaded (h : (c.load decode calls path).answer = .ok picture) :
    (c.load decode calls path).cache.Gives path picture := by
  obtain ⟨image, rfl, himages, -⟩ := cache_of_loaded h
  rw [Gives, himages, Table.find?_put_self]
  rfl

/-- A load that gives anything does not go unnoticed. -/
theorem cache_ne_of_loaded (h : (c.load decode calls path).answer = .ok picture) :
    (c.load decode calls path).cache ≠ c := by
  intro hsame
  obtain ⟨-, -, -, hcounted⟩ := cache_of_loaded h
  rw [hsame] at hcounted
  omega

/-- What the cache has it gives, and does not ask the decoder for. -/
theorem Gives.load (h : c.Gives path picture) (decode : Decoder) (calls : Nat) :
    (c.load decode calls path).answer = .ok picture ∧ (c.load decode calls path).decoded = [] ∧
      (c.load decode calls path).calls = calls := by
  obtain ⟨image, himage, rfl⟩ := Option.map_eq_some_iff.1 h
  obtain ⟨hdecoded, hcalls, hanswer⟩ := load_of_cached himage decode calls
  exact ⟨hanswer, hdecoded, hcalls⟩

/-- No load takes away what the cache has. -/
theorem Gives.kept (h : c.Gives path picture) (decode : Decoder) (calls : Nat) (other : Text) :
    (c.load decode calls other).cache.Gives path picture := by
  by_cases ho : path = other
  · subst ho
    exact gives_of_loaded (h.load decode calls).1
  · cases hanswer : (c.load decode calls other).answer with
    | error e =>
      rw [load_of_error hanswer]
      exact h
    | ok given =>
      obtain ⟨image, -, himages, -⟩ := cache_of_loaded hanswer
      rw [Gives, himages, Table.find?_put_of_ne _ ho]
      exact h

end ImageCache

/-- A step looks at no picture. -/
theorem Player.pictures_step (p : Player) :
    p.step.1.backgrounds = p.backgrounds ∧ p.step.1.portraits = p.portraits ∧
      p.step.1.decodes = p.decodes := by
  cases p.sort with
  | stopped h => rw [step_of_verdict h]; exact ⟨rfl, rfl, rfl⟩
  | failing hs h => rw [step_of_failing hs h]; exact ⟨rfl, rfl, rfl⟩
  | ending hs h => rw [step_of_ending hs h]; exact ⟨rfl, rfl, rfl⟩
  | plain hs h hm => rw [step_of_plain hs h hm]; exact ⟨rfl, rfl, rfl⟩
  | impossible hs h he => rw [step_of_impossible hs h he]; exact ⟨rfl, rfl, rfl⟩
  | @possible d effect hs h he =>
    rw [step_of_possible hs h he]
    cases effect <;> exact ⟨rfl, rfl, rfl⟩

namespace Engine

/-! ## Asking for pictures -/

/-- A request for a picture. -/
def Request.Pictorial : Request → Prop
  | .background | .portrait _ => True
  | _ => False

/-- The load of a path in the cache for backgrounds. -/
def backgroundLoad (e : Engine) (path : Text) : Load :=
  e.world.backgrounds.load e.world.decoder e.world.decodes path

/-- The load of a path in the cache for portraits. -/
def portraitLoad (e : Engine) (path : Text) : Load :=
  e.world.portraits.load e.world.decoder e.world.decodes path

theorem serve_background_of_none (emit : Stage.Emitter Player) {e : Engine}
    (h : e.world.background = none) :
    serveWith emit e .background = (e, .picture (.ok none)) := by
  simp only [serveWith, serve, backgroundImage, h]

/-- With a background the answer is what its load comes to, which changes the cache for backgrounds
and nothing else. -/
theorem serve_background_of_some (emit : Stage.Emitter Player) {e : Engine} {path : Text}
    (h : e.world.background = some path) :
    let load := backgroundLoad e path
    let served := serveWith emit e .background
    served.2 = .picture load.answer ∧
      served.1.world = { e.world with backgrounds := load.cache, decodes := load.calls } ∧
      served.1.bus = e.bus ∧ served.1.decodings = e.decodings ++ load.decoded := by
  intro load served
  have hserved : served =
      (noteLoad (e.onWorld fun p => { p with backgrounds := load.cache, decodes := load.calls })
        load path, .picture load.answer) := by
    simp only [served, serveWith, serve, backgroundImage, h]
    rfl
  rw [hserved]
  exact ⟨rfl, (noteLoad_eq ..).1, (noteLoad_eq ..).2, decodings_noteLoad ..⟩

/-- A portrait is loaded likewise, in the other cache. -/
theorem serve_portrait (emit : Stage.Emitter Player) (e : Engine) (s : Sprite) :
    let load := portraitLoad e s.path
    let served := serveWith emit e (.portrait s)
    served.2 = .picture load.answer ∧
      served.1.world = { e.world with portraits := load.cache, decodes := load.calls } ∧
      served.1.bus = e.bus ∧ served.1.decodings = e.decodings ++ load.decoded :=
  ⟨rfl, (noteLoad_eq ..).1, (noteLoad_eq ..).2, decodings_noteLoad ..⟩

/-! ## Asking for anything else -/

/-- Between the two engines nothing was decoded, and no cache was looked at. -/
structure Unpictured (e f : Engine) : Prop where
  backgrounds : f.world.backgrounds = e.world.backgrounds
  portraits : f.world.portraits = e.world.portraits
  decodes : f.world.decodes = e.world.decodes
  decodings : f.decodings = e.decodings

theorem Unpictured.refl (e : Engine) : Unpictured e e := ⟨rfl, rfl, rfl, rfl⟩

theorem Unpictured.trans {e f g : Engine} (h : Unpictured e f) (h' : Unpictured f g) :
    Unpictured e g where
  backgrounds := h'.backgrounds.trans h.backgrounds
  portraits := h'.portraits.trans h.portraits
  decodes := h'.decodes.trans h.decodes
  decodings := h'.decodings.trans h.decodings

theorem Unpictured.of_kept {e f : Engine} (h : Stage.Kept e f) : Unpictured e f := by
  refine ⟨?_, ?_, ?_, h.decodings⟩ <;> rw [h.world]

theorem unpictured_own (e : Engine) {r : Request} (hr : ¬r.Pictorial) :
    Unpictured e (serveWith unheard e r).1 := by
  cases r with
  | next =>
    obtain ⟨hbackgrounds, hportraits, hdecodes⟩ := e.world.pictures_step
    have hworld : (serveWith unheard e .next).1.world = e.world.step.1 := (own_next e).1
    exact ⟨by rw [hworld, hbackgrounds], by rw [hworld, hportraits], by rw [hworld, hdecodes],
      decodings_own_next e⟩
  | background => exact absurd trivial hr
  | portrait s => exact absurd trivial hr
  | peek => exact .of_kept ⟨(peeked_eq e).1, decodings_peeked e⟩
  | advance => exact ⟨by simp [serveWith, serve], by simp [serveWith, serve],
      by simp [serveWith, serve], decodings_moved e⟩
  | introduce name l => exact .of_kept (e.kept_introduce name l)
  | subscribe event name => exact .of_kept (e.kept_subscribe event name)
  | unsubscribe event name => exact .of_kept (e.kept_unsubscribe event name)
  | emit event payload => exact .refl e
  | look object => exact .refl e
  | change object f => exact .of_kept (e.kept_change object f)
  | snapshot => exact .refl e
  | addSprite s => exact ⟨rfl, rfl, rfl, rfl⟩
  | replaceScript c => exact ⟨rfl, rfl, rfl, rfl⟩

/-- As long as nobody asks for a picture, nothing is decoded, and no cache changes. -/
theorem keeps_unpictured : Keeps (¬·.Pictorial) Unpictured where
  refl := .refl
  trans := .trans
  log e _ := .of_kept (e.kept_note rfl)
  called e name payload := .of_kept (Stage.kept_called e name payload)
  given e name a := .of_kept (kept_noteGiven name e a)
  serve hr hemit e := by
    rw [serveWith_eq_announce]
    exact (unpictured_own e hr).trans (announce_keeps .refl .trans (fun e event payload =>
      (Unpictured.of_kept (e.kept_announced event payload)).trans (hemit e event payload)) _ _)

/-! ## What the cache for backgrounds keeps -/

theorem gives_own {e : Engine} {path : Text} {picture : Option Picture}
    (h : e.world.backgrounds.Gives path picture) (r : Request) :
    (serveWith unheard e r).1.world.backgrounds.Gives path picture := by
  by_cases hr : r.Pictorial
  · cases r with
    | background =>
      cases hb : e.world.background with
      | none =>
        rw [serve_background_of_none unheard hb]
        exact h
      | some other =>
        rw [(serve_background_of_some unheard hb).2.1]
        exact h.kept ..
    | portrait s =>
      rw [(serve_portrait unheard e s).2.1]
      exact h
    | _ => exact hr.elim
  · rw [(unpictured_own e hr).backgrounds]
    exact h

/-- A background that was given once is there for good, whatever is asked by anyone. -/
theorem lasting_gives (path : Text) (picture : Option Picture) :
    Lasting (fun _ => True) fun e => e.world.backgrounds.Gives path picture where
  log _ h := h
  called _ _ h := h
  given name a h := by rwa [world_noteGiven]
  announced _ _ h := h
  own _ h := gives_own h _

end Engine

/-! ## The background -/

/-- Only a step sets the background. -/
theorem Engine.background_own {e : Engine} {r : Request} (hn : r ≠ .next) :
    (serveWith unheard e r).1.world.background = e.world.background := by
  by_cases ht : r.Tampers
  · cases r with
    | replaceScript c => rfl
    | advance => simp [serveWith, Engine.serve]
    | _ => exact ht.elim
  · exact (still_own hn ht).background

/-- The background is the last that the elements given so far have set. -/
theorem Player.Follows.background {P : Engine.Request → Prop} {p q : Player} {ms : List Moment}
    (h : p.Follows P ms q) :
    q.background = (lastBackground (elementsOf (stepsOf ms))).or p.background := by
  induction ms generalizing p with
  | nil => exact congrArg Player.background h
  | cons m ms ih =>
    obtain ⟨rfl, -, hrest⟩ := h
    rw [ih hrest]
    by_cases hn : m.request = .next
    · obtain ⟨hafter, hanswer⟩ := Moment.of_next hn
      rw [stepsOf_cons_of_stepped hanswer, hafter]
      obtain ⟨-, -, ⟨hstops, hback, -⟩ | ⟨element, ho, hback, -⟩⟩ := m.engine.world.step_leaves
      · rw [hback, elementsOf_cons_of_stops hstops]
      · rw [hback, ho]
        exact (lastBackground_cons ..).symm
    · rw [stepsOf_cons_of_ne hn, Moment.after, Engine.background_own hn]

namespace Engine

/-! ## Sessions -/

section
variable (emit : Stage.Emitter Player) {e : Engine} {path : Text} {picture : Option Picture}

/-- A request for a background changes the cache for backgrounds at most. -/
theorem world_serve_background (e : Engine) : ∃ cache decodes,
    (serveWith emit e .background).1.world =
      { e.world with backgrounds := cache, decodes := decodes } ∧
    (serveWith emit e .background).1.bus = e.bus := by
  cases hb : e.world.background with
  | none =>
    rw [serve_background_of_none emit hb]
    exact ⟨e.world.backgrounds, e.world.decodes, rfl, rfl⟩
  | some path =>
    obtain ⟨-, hworld, hbus, -⟩ := serve_background_of_some emit hb
    exact ⟨_, _, hworld, hbus⟩

/-- A request that fails for want of a picture leaves nothing behind but the count of calls. -/
theorem world_serve_of_no_picture {r : Request} {error : ImageError}
    (h : (serveWith emit e r).2 = .picture (.error error)) :
    ∃ decodes, (serveWith emit e r).1.world = { e.world with decodes := decodes } ∧
      (serveWith emit e r).1.bus = e.bus := by
  cases r with
  | background =>
    cases hb : e.world.background with
    | none =>
      rw [serve_background_of_none emit hb] at h
      cases h
    | some path =>
      obtain ⟨hanswer, hworld, hbus, -⟩ := serve_background_of_some emit hb
      have hcache : (backgroundLoad e path).cache = e.world.backgrounds :=
        ImageCache.load_of_error (Answer.picture.inj (hanswer.symm.trans h))
      rw [hcache] at hworld
      exact ⟨_, hworld, hbus⟩
  | portrait s =>
    obtain ⟨hanswer, hworld, hbus, -⟩ := serve_portrait emit e s
    have hcache : (portraitLoad e s.path).cache = e.world.portraits :=
      ImageCache.load_of_error (Answer.picture.inj (hanswer.symm.trans h))
    rw [hcache] at hworld
    exact ⟨_, hworld, hbus⟩
  | _ => cases h

/-- A background that is given has been put into its cache. -/
theorem loaded_of_answer (hb : e.world.background = some path)
    (h : (serveWith emit e .background).2 = .picture (.ok picture)) :
    (backgroundLoad e path).answer = .ok picture ∧
      (serveWith emit e .background).1.world.backgrounds = (backgroundLoad e path).cache := by
  obtain ⟨hanswer, hworld, -⟩ := serve_background_of_some emit hb
  exact ⟨Answer.picture.inj (hanswer.symm.trans h), congrArg Player.backgrounds hworld⟩

/-- Who asks for a background for which the cache has a picture is given that, and nothing is
decoded. -/
theorem serve_background_of_gives (hb : e.world.background = some path)
    (h : e.world.backgrounds.Gives path picture) :
    (serveWith emit e .background).2 = .picture (.ok picture) ∧
      (serveWith emit e .background).1.decodings = e.decodings ∧
      (serveWith emit e .background).1.world.decodes = e.world.decodes := by
  obtain ⟨hgiven, hdecoded, hcalls⟩ := h.load e.world.decoder e.world.decodes
  obtain ⟨hanswer, hworld, -, hdecodings⟩ := serve_background_of_some emit hb
  refine ⟨hanswer.trans (congrArg Answer.picture hgiven), ?_, ?_⟩
  · rw [hdecodings, backgroundLoad, hdecoded, List.append_nil]
  · rw [hworld]
    exact hcalls

end

/-- The listeners that a bus knows cannot ask for pictures. -/
theorem own_not_pictorial : own.Only (¬·.Pictorial) :=
  acts_own.mono fun r hr => by cases r <;> first | exact id | cases hr

/-- What comes of asking an engine for its background, if this is the one that was set last. -/
structure Shows (cast : Cast) (e : Engine) (shown : Option Text) : Prop where
  background : e.world.background = shown
  /-- Without a background nothing is looked up, and nothing happens. -/
  nothing : shown = none → serveWith (emitAs cast) e .background = (e, .picture (.ok none))
  /-- Only then does the answer come without the cache. -/
  nothing_of_untouched : (serveWith (emitAs cast) e .background).2 = .picture (.ok none) →
    (serveWith (emitAs cast) e .background).1.world.backgrounds = e.world.backgrounds →
    shown = none
  /-- Otherwise the background is loaded. -/
  loaded : ∀ path, shown = some path →
    (serveWith (emitAs cast) e .background).2 = .picture (backgroundLoad e path).answer ∧
    (serveWith (emitAs cast) e .background).1.decodings =
      e.decodings ++ (backgroundLoad e path).decoded
  /-- What was given for it is given for it ever after, without the decoder. -/
  remembered : ∀ path picture later, shown = some path →
    (serveWith (emitAs cast) e .background).2 = .picture (.ok picture) →
    let again := (serveAllAs cast (serveWith (emitAs cast) e .background).1 later).1
    again.world.background = some path →
    (serveWith (emitAs cast) again .background).2 = .picture (.ok picture) ∧
      (serveWith (emitAs cast) again .background).1.decodings = again.decodings ∧
      (serveWith (emitAs cast) again .background).1.world.decodes = again.world.decodes

theorem shows_of_background (cast : Cast) {e : Engine} {shown : Option Text}
    (hb : e.world.background = shown) : Shows cast e shown where
  background := hb
  nothing hs := serve_background_of_none _ (hb.trans hs)
  nothing_of_untouched hanswer hsame := by
    -- With a background, no picture would have come from a load, which the cache counts.
    by_contra hsome
    obtain ⟨path, hs⟩ := Option.ne_none_iff_exists'.1 hsome
    obtain ⟨hload, hcache⟩ := loaded_of_answer _ (hb.trans hs) hanswer
    exact ImageCache.cache_ne_of_loaded hload (hcache.symm.trans hsame)
  loaded path hs := by
    obtain ⟨hanswer, -, -, hdecodings⟩ := serve_background_of_some (emitAs cast) (hb.trans hs)
    exact ⟨hanswer, hdecodings⟩
  remembered path picture later hs hanswer := by
    intro again hagain
    obtain ⟨hload, hcache⟩ := loaded_of_answer _ (hb.trans hs) hanswer
    have hgives : (serveWith (emitAs cast) e .background).1.world.backgrounds.Gives path
        picture := by
      rw [hcache]
      exact ImageCache.gives_of_loaded hload
    obtain ⟨hlater, -⟩ := lasts_course (lasting_gives path picture) cast.only_true
      (fun r (_ : r ∈ later) => trivial) hgives
    exact serve_background_of_gives _ hagain hlater

/-- **Pictures are decoded when they are asked for.** Listeners of any conduct leave pictures alone.
Then nothing but a request for a picture calls the decoder or changes a cache; such a request
changes the one cache that it is about, and nothing at all but the count of calls if it fails. The
answer to a request for a portrait is what the load of its path comes to. In a session from the
start there is no picture of the background until a step sets one. After that its picture is what
the load of the last one comes to, and once that has given anything, nothing is decoded for this
path again, whatever happens meanwhile. -/
theorem pictures_when_asked {cast : Cast} (hc : cast.Only (¬·.Pictorial)) :
    (∀ (e : Engine) (r : Request), ¬r.Pictorial → Unpictured e (serveWith (emitAs cast) e r).1) ∧
    (∀ e : Engine, Unpictured e (iterateWith (emitAs cast) e).1) ∧
    (∀ e : Engine, ∃ cache decodes,
      (serveWith (emitAs cast) e .background).1.world =
        { e.world with backgrounds := cache, decodes := decodes } ∧
      (serveWith (emitAs cast) e .background).1.bus = e.bus) ∧
    (∀ (e : Engine) (s : Sprite),
      let load := portraitLoad e s.path
      let served := serveWith (emitAs cast) e (.portrait s)
      served.2 = .picture load.answer ∧
        served.1.world = { e.world with portraits := load.cache, decodes := load.calls } ∧
        served.1.bus = e.bus ∧ served.1.decodings = e.decodings ++ load.decoded) ∧
    (∀ (e : Engine) (r : Request) (error : ImageError),
      (serveWith (emitAs cast) e r).2 = .picture (.error error) →
      ∃ decodes, (serveWith (emitAs cast) e r).1.world = { e.world with decodes := decodes } ∧
        (serveWith (emitAs cast) e r).1.bus = e.bus) ∧
    (∀ (e : Engine) (rs : List Request), Built e →
      Shows cast (serveAllAs cast e rs).1
        (lastBackground (elementsOf (stepsOf (course cast rs e))))) ∧
    own.Only (¬·.Pictorial) ∧ ∀ e rs, serveAllAs own e rs = serveAll e rs := by
  have hserve (e : Engine) (r : Request) (hr : ¬r.Pictorial) :
      Unpictured e (serveWith (emitAs cast) e r).1 :=
    keeps_unpictured.serve hr (keeps_unpictured.emitAs hc) e
  refine ⟨hserve, fun e => hserve e .next id, world_serve_background _,
    serve_portrait (emitAs cast), fun _ _ _ => world_serve_of_no_picture _, ?_, own_not_pictorial,
    serveAllAs_own⟩
  intro e rs he
  obtain ⟨-, -, hnone, -⟩ := he.unplayed
  have hfollows := follows_course cast.only_true (fun r (_ : r ∈ rs) => trivial) e
  refine shows_of_background cast ?_
  rw [hfollows.background, hnone, Option.or_none]

/-- A script that shows one background, then another, and then the first again. Its decoder fails
when it is first called. -/
def gallery : Engine :=
  start {} {}
    (fun calls path => if calls = 1 then .error (.missingFile path) else .ok (some ⟨path, none⟩))
    (.ofText "@loadbg(a.png)\n@loadbg(b.png)\n@loadbg(a.png)".toList none)

/-- The gallery when somebody has looked at the first background, in vain. -/
def visited : Engine := (serveAllAs own gallery [.background, .next, .background]).1

/-- The gallery when he has looked again, and the first background has come back after the other. -/
def revisited : Engine :=
  (serveAllAs own (serveWith (emitAs own) visited .background).1 [.next, .background, .next]).1

theorem pictures_when_asked_gallery :
    (own.Only (¬·.Pictorial) ∧ Built gallery) ∧
      visited.decodings = ["a.png".toList] ∧
      revisited.decodings = ["a.png".toList, "a.png".toList, "b.png".toList] ∧
      (serveWith (emitAs own) revisited .background).2 =
        .picture (.ok (some ⟨"a.png".toList, none⟩)) ∧
      (serveWith (emitAs own) revisited .background).1.decodings = revisited.decodings := by
  have hbuilt : Built gallery := .start ..
  obtain ⟨-, -, -, -, -, hshows, -⟩ := pictures_when_asked own_not_pictorial
  have hvisited := hshows gallery [.background, .next, .background] hbuilt
  have hshown : lastBackground
      (elementsOf (stepsOf (course own [.background, .next, .background] gallery))) =
        some "a.png".toList := by decide +kernel
  have hload : (backgroundLoad visited "a.png".toList).answer =
      .ok (some ⟨"a.png".toList, none⟩) := by decide +kernel
  have hanswer := (hvisited.loaded _ hshown).1.trans (congrArg Answer.picture hload)
  have hback : revisited.world.background = some "a.png".toList := by decide +kernel
  obtain ⟨hgiven, hdecodings, -⟩ := hvisited.remembered _ _ [.next, .background, .next] hshown
    hanswer hback
  exact ⟨⟨own_not_pictorial, hbuilt⟩, by decide +kernel, by decide +kernel, hgiven, hdecodings⟩

end Engine

end Playscript
