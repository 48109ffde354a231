import Playscript.Proofs.Openings

/-!
# Accepted configurations

A configuration that is made of settings has an encoding that is known and a level that there is.
That its encoding reads text, and that its base directory is a path, is looked at by nobody before
they are put to use: a script is read under a codec of bytes no better than under an unknown name,
and a base that counts but is no text spoils each path that is not rooted. All this holds of any
registry of codecs.

* `FileSystem.Holds`, `FileSystem.Closed`: what a path leads to, and whether that may be read.
* `Config.make_cases`: when settings make a configuration, and which.
* `Config.readsFiles_iff`, `Config.findsPictures_iff`: when a configuration is of use.
* `accepted_usable_iff`: the configurations that are accepted.
-/

namespace Playscript

namespace FileSystem

variable {fs : FileSystem} {path : Path} {encoding : Text} {entry : Entry} {bytes : List UInt8}

/-- A path without a NUL leads to an entry. -/
def Holds (fs : FileSystem) (path : Path) (entry : Entry) : Prop :=
  hasNul path = false ∧ fs.status path = .ok (some entry)

/-- What the path leads to may not be read. -/
def Closed (fs : FileSystem) (path : Path) : Prop :=
  ∃ place, fs.locate path = .ok place ∧ place ∈ fs.closed

theorem Holds.locate (h : fs.Holds path entry) :
    ∃ place, fs.locate path = .ok place ∧ fs.entry? place = some entry := by
  have hstatus := h.2
  rw [status] at hstatus
  cases hl : fs.locate path with
  | error why => simp [hl] at hstatus
  | ok place => exact ⟨place, rfl, by simpa [hl] using hstatus⟩

theorem Holds.read_of_closed (h : fs.Holds path entry) (hc : fs.Closed path) :
    fs.read path = .error (.refused .denied path) := by
  obtain ⟨place, hlocate, hentry⟩ := h.locate
  obtain ⟨place', hlocate', hclosed⟩ := hc
  obtain rfl : place = place' := Except.ok.inj (hlocate.symm.trans hlocate')
  simp [FileSystem.read, h.1, hlocate, hentry, hclosed]

theorem Holds.read_of_open (h : fs.Holds path (.file bytes)) (hc : ¬fs.Closed path) :
    fs.read path = .ok bytes := by
  obtain ⟨place, hlocate, hentry⟩ := h.locate
  exact read_eq_ok_iff.2 ⟨h.1, place, hlocate, hentry, fun hclosed => hc ⟨place, hlocate, hclosed⟩⟩

/-- What can be read is read as its encoding says. -/
theorem readText_of_read (h : fs.read path = .ok bytes) (hn : encoding.contains '\x00' = false) :
    fs.readText path encoding =
      match fs.codecs.decodeAs encoding bytes with
      | .error e => .error (.encoding e)
      | .ok text => .ok text.unifyBreaks := by
  cases hdecode : fs.codecs.decodeAs encoding bytes <;>
    simp only [readText, hn, h, hdecode, Bool.false_eq_true, if_false]

theorem readText_of_denied (h : fs.read path = .error (.refused .denied path))
    (hn : encoding.contains '\x00' = false) :
    fs.readText path encoding = .error (.file (.refused .denied path)) := by
  simp only [readText, hn, h, Bool.false_eq_true, if_false]

end FileSystem

namespace Registry

variable {codecs : Registry} {name : Text} {codec : Codec}

/-- Under the name of a codec of text bytes are read, or are at fault themselves. -/
theorem decodeAs_of_isText (h : codecs.find? name = some codec) (ht : codec.isText = true)
    (bytes : List UInt8) :
    (∃ text, codecs.decodeAs name bytes = .ok text) ∨
      ∃ e, codecs.decodeAs name bytes = .error (.undecodable e) := by
  cases codec with
  | other => cases ht
  | text read =>
    simp only [decodeAs, h]
    cases read bytes with
    | ok text => exact .inl ⟨text, rfl⟩
    | error e => exact .inr ⟨e, rfl⟩

theorem decodeAs_of_not_isText (h : codecs.find? name = some codec) (ht : codec.isText = false)
    (bytes : List UInt8) : codecs.decodeAs name bytes = .error (.notText name) := by
  cases codec with
  | text read => cases ht
  | other => simp only [decodeAs, h]

end Registry

/-- A base that counts where a path is not rooted, and is itself no path. -/
def Json.isBadBase (base : Json) : Bool :=
  match base with
  | .str _ => false
  | base => base.isTruthy

theorem Json.isBadBase_eq_false_iff {base : Json} :
    base.isBadBase = false ↔ base.isTruthy = false ∨ ∃ text, base = .str text := by
  cases base with
  | str text => simp [isBadBase]
  | _ => simp [isBadBase]

namespace ImageCache

theorem resolve_eq_badBase_iff {c : ImageCache} {path : Text} :
    c.resolve path = .error .badBase ↔
      c.base.isBadBase = true ∧ (Path.ofText path).isRooted = false := by
  simp only [resolve]
  by_cases hcounts : (c.base.isTruthy && !(Path.ofText path).isRooted) = true
  · rw [if_pos hcounts]
    simp only [Bool.and_eq_true, Bool.not_eq_true'] at hcounts
    cases hbase : c.base with
    | str text => simp [Json.isBadBase]
    | _ =>
      rw [hbase] at hcounts
      simp [Json.isBadBase, hcounts]
  · rw [if_neg hcounts]
    simp only [reduceCtorEq, false_iff]
    rintro ⟨hbad, hrooted⟩
    have htruthy : c.base.isTruthy = true := by
      cases hbase : c.base with
      | str text => simp [hbase, Json.isBadBase] at hbad
      | _ =>
        rw [hbase] at hbad
        exact hbad
    exact hcounts (by simp [htruthy, hrooted])

/-- A load gives away a bad base only where it resolves the path. -/
theorem answer_load_ne_badBase {c : ImageCache} {path : Text}
    (h : c.resolve path ≠ .error .badBase) (decode : Decoder) (calls : Nat) :
    (c.load decode calls path).answer ≠ .error .badBase := by
  cases hfind : c.images.find? path with
  | some image => simp [load, hfind]
  | none =>
    cases hresolve : c.resolve path with
    | error e =>
      simp only [load, hfind, hresolve]
      intro hbad
      rw [hresolve, Except.error.inj hbad] at h
      exact h rfl
    | ok resolved =>
      cases hdecode : decode (calls + 1) resolved <;> simp [load, hfind, hresolve, hdecode]

end ImageCache

namespace Config

variable {codecs : Registry} {c : Config} {codec : Codec}

/-- On a system with these codecs every regular file gives a script or is at fault in its bytes,
unless it may not be read. -/
def ReadsFiles (codecs : Registry) (c : Config) : Prop :=
  ∀ fs : FileSystem, fs.codecs = codecs → ∀ (path : Path) (shown : Text) (bytes : List UInt8),
    fs.Holds path (.file bytes) →
      (∃ script, Cursor.ofFile fs path shown c.encoding = .ok script) ∨
      (∃ e, Cursor.ofFile fs path shown c.encoding =
        .error { fault := .unreadable shown (.encoding (.undecodable e)) }) ∨
      fs.Closed path ∧ Cursor.ofFile fs path shown c.encoding =
        .error { fault := .unreadable shown (.file (.refused .denied path)) }

/-- No path is spoilt by the base of a cache, whatever is in the cache. -/
def FindsPictures (c : Config) : Prop :=
  ∀ cache : ImageCache, cache.base = c.assetsDir → ∀ path : Text,
    cache.resolve path ≠ .error .badBase ∧
      ∀ (decode : Decoder) (calls : Nat), (cache.load decode calls path).answer ≠ .error .badBase

/-- Settings are turned down as bad, or make a configuration with an encoding that is known. -/
theorem make_cases (codecs : Registry) (s : Settings) :
    (∃ error, make codecs s = .error error ∧ error.isCaught = true) ∨
      ∃ c codec, make codecs s = .ok c ∧ c.encoding = s.encoding.plain ∧ c.assetsDir = s.baseDir ∧
        c.encoding.contains '\x00' = false ∧ codecs.find? c.encoding = some codec := by
  rw [make]
  split
  · exact .inl ⟨_, rfl, rfl⟩
  · rename_i hnul
    split
    · exact .inl ⟨_, rfl, rfl⟩
    · rename_i hknown
      obtain ⟨codec, hcodec⟩ := Option.isSome_iff_exists.1
        (by simpa [Option.isSome_iff_ne_none] using hknown)
      cases hlevel : levelName s.level with
      | error error =>
        refine .inl ⟨error, rfl, ?_⟩
        rw [levelName] at hlevel
        split at hlevel
        · cases hlevel
        · obtain rfl := Except.error.inj hlevel
          rfl
      | ok level => exact .inr ⟨_, codec, rfl, rfl, rfl, by simpa using hnul, hcodec⟩

/-- Under a codec that is not one of text, no file gives a script. -/
theorem ofFile_of_not_isText (hn : c.encoding.contains '\x00' = false)
    (he : codecs.find? c.encoding = some codec) (ht : codec.isText = false) {fs : FileSystem}
    (hs : fs.codecs = codecs) {path : Path} {bytes : List UInt8} (h : fs.read path = .ok bytes)
    (shown : Text) :
    Cursor.ofFile fs path shown c.encoding =
      .error { fault := .unreadable shown (.encoding (.notText c.encoding)) } := by
  rw [Cursor.ofFile, FileSystem.readText_of_read h hn, hs, Registry.decodeAs_of_not_isText he ht]

/-- On every system there may be a regular file that may be read. -/
theorem exists_holds (codecs : Registry) : ∃ (fs : FileSystem) (path : Path),
    fs.codecs = codecs ∧ fs.Holds path (.file []) ∧ ¬fs.Closed path := by
  refine ⟨{ entries := [([['s']], .file [])], codecs }, ⟨.relative, [['s']]⟩, rfl, ⟨rfl, rfl⟩, ?_⟩
  rintro ⟨place, -, hclosed⟩
  cases hclosed

theorem readsFiles_iff (hn : c.encoding.contains '\x00' = false)
    (he : codecs.find? c.encoding = some codec) : c.ReadsFiles codecs ↔ codec.isText = true := by
  constructor
  · intro h
    by_contra ht
    obtain ⟨fs, path, hs, hheld, hopen⟩ := exists_holds codecs
    have hfails := ofFile_of_not_isText hn he (Bool.not_eq_true _ ▸ ht) hs
      (hheld.read_of_open hopen) []
    rcases h fs hs path [] [] hheld with ⟨script, hscript⟩ | ⟨e, he⟩ | ⟨hclosed, -⟩
    · rw [hfails] at hscript
      cases hscript
    · rw [hfails] at he
      cases he
    · exact hopen hclosed
  · intro ht fs hs path shown bytes hheld
    by_cases hclosed : fs.Closed path
    · refine .inr (.inr ⟨hclosed, ?_⟩)
      rw [Cursor.ofFile, FileSystem.readText_of_denied (hheld.read_of_closed hclosed) hn]
    · rw [Cursor.ofFile, FileSystem.readText_of_read (hheld.read_of_open hclosed) hn, hs]
      rcases Registry.decodeAs_of_isText he ht bytes with ⟨text, hdecode⟩ | ⟨e, hdecode⟩
      · rw [hdecode]
        exact .inl ⟨_, rfl⟩
      · rw [hdecode]
        exact .inr (.inl ⟨e, rfl⟩)

theorem findsPictures_iff :
    c.FindsPictures ↔ c.assetsDir.isTruthy = false ∨ ∃ text, c.assetsDir = .str text := by
  rw [← Json.isBadBase_eq_false_iff]
  constructor
  · intro h
    by_contra hbad
    have hrooted : (Path.ofText []).isRooted = false := rfl
    exact (h { base := c.assetsDir } rfl []).1
      (ImageCache.resolve_eq_badBase_iff.2 ⟨Bool.not_eq_false _ ▸ hbad, hrooted⟩)
  · intro hgood cache hbase path
    have hresolve : cache.resolve path ≠ .error .badBase := by
      intro hbad
      have := (ImageCache.resolve_eq_badBase_iff.1 hbad).1
      rw [hbase, hgood] at this
      cases this
    exact ⟨hresolve, ImageCache.answer_load_ne_badBase hresolve⟩

end Config

/-- **Accepted configurations.** Whatever the codecs of a system and whatever the fields of an
object, the fields are turned down as bad or make a configuration, whose encoding is known. It reads
regular files that are not closed, or finds them at fault in their bytes, just if the codec of that
name is one of text, and otherwise it reads none. Its base directory lets every path be resolved and
every picture be loaded just if it does not count or is a text, and otherwise it spoils the paths
that are not rooted and no others. -/
theorem accepted_usable_iff (codecs : Registry) (fields : List (Text × Json)) :
    let settings := Settings.merge fields
    (∃ error, Config.make codecs settings = .error error ∧ error.isCaught = true) ∨
      ∃ c codec, Config.make codecs settings = .ok c ∧ c.encoding = settings.encoding.plain ∧
        c.assetsDir = settings.baseDir ∧ codecs.find? c.encoding = some codec ∧
        (c.ReadsFiles codecs ↔ codec.isText = true) ∧
        (codec.isText = false → ∀ fs : FileSystem, fs.codecs = codecs →
          ∀ (path : Path) (shown : Text) (bytes : List UInt8), fs.read path = .ok bytes →
            Cursor.ofFile fs path shown c.encoding =
              .error { fault := .unreadable shown (.encoding (.notText c.encoding)) }) ∧
        (c.FindsPictures ↔ c.assetsDir.isTruthy = false ∨ ∃ text, c.assetsDir = .str text) ∧
        (c.assetsDir.isBadBase = true → ∀ cache : ImageCache, cache.base = c.assetsDir →
          ∀ path, cache.resolve path = .error .badBase ↔ (Path.ofText path).isRooted = false) := by
  intro settings
  rcases Config.make_cases codecs settings with
    hbad | ⟨c, codec, hmade, hencoding, hbase, hnul, hcodec⟩
  · exact .inl hbad
  · refine .inr ⟨c, codec, hmade, hencoding, hbase, hcodec, Config.readsFiles_iff hnul hcodec, ?_,
      Config.findsPictures_iff, ?_⟩
    · intro ht fs hs path shown bytes hread
      exact Config.ofFile_of_not_isText hnul hcodec ht hs hread shown
    · intro hbad cache hcache path
      rw [ImageCache.resolve_eq_badBase_iff, hcache, hbad]
      simp

def nook : FileSystem :=
  FileSystem.nameless.install (Path.ofText "s.vn".toList) (.file (Utf8.encode "[A] hi".toList))

/-- An encoding of bytes is accepted, and so is a number for a base directory. -/
theorem accepted_of_no_use :
    let bytewise := [("script".toList, Json.obj [("encoding".toList, .str "hex".toList)])]
    let numbered := [("assets".toList, Json.obj [("base_dir".toList, .int 5)])]
    nook.Holds (Path.ofText "s.vn".toList) (.file (Utf8.encode "[A] hi".toList)) ∧
      ((Config.make nook.codecs (Settings.merge bytewise)).toOption.map fun c =>
          Cursor.ofFile nook (Path.ofText "s.vn".toList) "s.vn".toList c.encoding) =
        some (.error
          { fault := .unreadable "s.vn".toList (.encoding (.notText "hex".toList)) }) ∧
      ((Config.make nook.codecs (Settings.merge numbered)).toOption.map fun c =>
          ({ base := c.assetsDir } : ImageCache).resolve "a.png".toList) =
        some (.error .badBase) := by
  intro bytewise numbered
  exact ⟨⟨rfl, by decide +kernel⟩, by decide +kernel, by decide +kernel⟩

end Playscript
