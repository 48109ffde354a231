import Playscript.Json
import Playscript.Path

/-!
# Image cache

Pictures by the path they were asked for. A path is resolved and decoded when it is first asked
for, and what came of it is kept for good, be it a picture or nothing. A decoding that fails leaves
no trace.

* `load_of_cached`: a cached path is not decoded again.
* `load_of_error`: after a failure the cache is what it was.
* `mem_keys_load`: the paths that a cache has are those that it had and the one just loaded.
-/

namespace Playscript

/-- A decoded picture: how it is known, and its size if it has one. -/
structure Picture where
  label : Text
  size : Option (Int × Int) := none
  deriving DecidableEq, Repr

inductive LoadFailure
  | undecodable (path : Text)
  | missingFile (path : Text)
  deriving DecidableEq, Repr

/-- Decoders are asked by number of the call and resolved path, and may give no picture. -/
abbrev Decoder := Nat → Text → Except LoadFailure (Option Picture)

inductive ImageError
  | decoder (failure : LoadFailure)
  /-- A base directory that is no path. -/
  | badBase
  deriving DecidableEq, Repr

structure CachedImage where
  picture : Option Picture
  width : Int
  height : Int
  uses : Nat
  deriving DecidableEq, Repr

structure ImageCache where
  base : Json := .null
  images : Table Text CachedImage := []
  hits : Nat := 0
  misses : Nat := 0

/-- What one load does: the cache after it, the number of decoder calls so far, the paths handed to
the decoder, and the answer. -/
structure Load where
  cache : ImageCache
  calls : Nat
  decoded : List Text := []
  answer : Except ImageError (Option Picture)

namespace ImageCache

/-- A base counts when it is truthy, and then only for paths that are not rooted. -/
def resolve (c : ImageCache) (path : Text) : Except ImageError Text :=
  let p := Path.ofText path
  if c.base.isTruthy && !p.isRooted then
    match c.base with
    | .str base => .ok ((Path.ofText base).join p).toText
    | _ => .error .badBase
  else .ok p.toText

/-- A picture without a size measures nothing. -/
def entryOf (picture : Option Picture) : CachedImage :=
  let size := (picture.bind Picture.size).getD (0, 0)
  ⟨picture, size.1, size.2, 1⟩

def load (c : ImageCache) (decode : Decoder) (calls : Nat) (path : Text) : Load :=
  match c.images.find? path with
  | some image =>
    { cache :=
        { c with hits := c.hits + 1
                 images := c.images.put path { image with uses := image.uses + 1 } }
      calls
      answer := .ok image.picture }
  | none =>
    match c.resolve path with
    | .error e => { cache := c, calls, answer := .error e }
    | .ok resolved =>
      match decode (calls + 1) resolved with
      | .error e =>
        { cache := c, calls := calls + 1, decoded := [resolved], answer := .error (.decoder e) }
      | .ok picture =>
        { cache :=
            { c with misses := c.misses + 1, images := c.images.put path (entryOf picture) }
          calls := calls + 1
          decoded := [resolved]
          answer := .ok picture }

def has (c : ImageCache) (path : Text) : Bool := (c.images.find? path).isSome

/-- The picture of a path that was loaded; nothing is decoded. -/
def get? (c : ImageCache) (path : Text) : Option Picture :=
  (c.images.find? path).bind CachedImage.picture

def size (c : ImageCache) : Nat := c.images.length

theorem load_of_cached {c : ImageCache} {path : Text} {image : CachedImage}
    (h : c.images.find? path = some image) (decode : Decoder) (calls : Nat) :
    (c.load decode calls path).decoded = [] ∧ (c.load decode calls path).calls = calls ∧
      (c.load decode calls path).answer = .ok image.picture := by
  simp [load, h]

theorem load_of_error {c : ImageCache} {decode : Decoder} {calls : Nat} {path : Text}
    {e : ImageError} (h : (c.load decode calls path).answer = .error e) :
    (c.load decode calls path).cache = c := by
  unfold load at h ⊢
  split
  · rename_i hf
    simp [hf] at h
  · rename_i hf
    simp only [hf] at h
    split
    · rfl
    · rename_i hr
      simp only [hr] at h
      split
      · rfl
      · rename_i hd
        simp [hd] at h

theorem mem_keys_load {c : ImageCache} {decode : Decoder} {calls : Nat} {path : Text}
    {picture : Option Picture} (h : (c.load decode calls path).answer = .ok picture)
    (other : Text) :
    other ∈ (c.load decode calls path).cache.images.keys ↔
      other ∈ c.images.keys ∨ other = path := by
  unfold load at h ⊢
  split
  · simp [Table.mem_keys_put]
  · rename_i hf
    simp only [hf] at h
    split
    · rename_i hr
      simp [hr] at h
    · rename_i hr
      simp only [hr] at h
      split
      · rename_i hd
        simp [hd] at h
      · simp [Table.mem_keys_put]

end ImageCache

end Playscript
