import Playscript.Config
import Playscript.Proofs.Directories
import Playscript.Proofs.JsonText
import Playscript.Proofs.Returns

/-!
# Storage

Settings that are saved are loaded again. What is written at a path is found there, because the
directories on the way are not what was written; and the written form of settings reads as those
settings. So a configuration does not depend on whether its settings went through a file.

* `FileSystem.read_of_write`: what was written at a path is read there.
* `Settings.value?`, `Settings.value?_merge`: what the fields of an object say about a key, and how
  that is laid over the defaults.
* `Settings.load_save`: settings, and the configuration made of them, come back from a file.
-/

namespace Playscript

/-! ## Files -/

namespace FileSystem

variable {fs fs' : FileSystem} {path : Path} {place other : Place} {bytes : List UInt8}

/-- The file system with a file at a place. -/
def withFile (fs : FileSystem) (place : Place) (bytes : List UInt8) : FileSystem :=
  { fs with entries := fs.entries.put place (.file bytes) }

theorem entry_withFile_of_ne (h : other ≠ place) :
    entry? (fs.withFile place bytes) other = fs.entry? other := by
  rw [ entry?, entry?, withFile, Table.find?_put_of_ne _ h]

theorem entry_withFile_self (h : place ≠ []) :
    entry? (fs.withFile place bytes) place = some (.file bytes) := by
  rw [ entry?, if_neg h, withFile, Table.find?_put_self]

/-- Names lead through directories, so a file that replaces none of them changes no way. -/
theorem walk_withFile (h : fs.entry? place ≠ some .directory) {base : Place} {names : List Text}
    (hway : fs.walk base names = .ok other) :
    (fs.withFile place bytes).walk base names = .ok other := by
  induction names generalizing base with
  | nil => exact hway
  | cons name names ih =>
    rw [walk, List.foldlM_cons] at hway ⊢
    cases hnext : fs.enter base name with
    | error why =>
      rw [hnext] at hway
      cases hway
    | ok next =>
      have hne : base ≠ place := by
        rintro rfl
        exact h (enter_eq_ok hnext).1
      have hsame : (fs.withFile place bytes).enter base name = .ok next := by
        rw [← hnext, enter, enter, entry_withFile_of_ne hne]
        rfl
      rw [hnext] at hway
      rw [hsame]
      exact ih hway

theorem locate_withFile (h : fs.entry? place ≠ some .directory)
    (hl : fs.locate path = .ok other) : (fs.withFile place bytes).locate path = .ok other := by
  obtain ⟨hshort, hwalk⟩ := locate_eq_ok_iff.1 hl
  exact locate_eq_ok_iff.2 ⟨hshort, walk_withFile h hwalk⟩

theorem write_eq (h : fs.write path bytes = .ok fs') :
    hasNul path = false ∧ ∃ place, fs.locate path = .ok place ∧
      fs.entry? place ≠ some .directory ∧ place ∉ fs.closed ∧ fs' = fs.withFile place bytes := by
  unfold write at h
  split at h
  · cases h
  · rename_i hnul
    refine ⟨by simpa using hnul, ?_⟩
    cases hl : fs.locate path with
    | error why => simp [hl] at h
    | ok place =>
      simp only [hl] at h
      split at h
      · cases h
      · rename_i hdirectory
        split at h
        · cases h
        · rename_i hbarred
          simp only [isBarred, Bool.or_eq_true, List.contains_iff_mem, not_or] at hbarred
          exact ⟨place, rfl, hdirectory, hbarred.1.1, (Except.ok.inj h).symm⟩

theorem codecs_makeDirectory (h : fs.makeDirectory path = .ok fs') : fs'.codecs = fs.codecs := by
  unfold makeDirectory at h
  split at h
  · cases h
  · split at h
    · cases h
    · split_ifs at h
      rw [← Except.ok.inj h]

theorem codecs_unlessDirectory {e : FileError} (h : fs.unlessDirectory path e = .ok fs') :
    fs'.codecs = fs.codecs := by
  unfold unlessDirectory at h
  split_ifs at h
  rw [← Except.ok.inj h]

/-- Making directories brings in no codecs. -/
theorem codecs_makeDirectories (h : fs.makeDirectories path = .ok fs') :
    fs'.codecs = fs.codecs := by
  fun_induction makeDirectories fs path generalizing fs' with
  | case1 path made hmade =>
    rw [← Except.ok.inj h]
    exact codecs_makeDirectory hmade
  | case2 => cases h
  | case3 => cases h
  | case4 path p hp hne above habove made hmade ih =>
    rw [← Except.ok.inj h, codecs_makeDirectory hmade, ih habove]
  | case5 path p hp hne above habove e he ih =>
    rw [codecs_unlessDirectory h, ih habove]
  | case6 => exact codecs_unlessDirectory h

/-- What was written at a path is there, and is what is read: only what is not closed can be
written. -/
theorem read_of_write (h : fs.write path bytes = .ok fs') :
    fs'.isPresent path = .ok true ∧ fs'.read path = .ok bytes := by
  obtain ⟨hnul, place, hlocate, hdirectory, hopen, rfl⟩ := write_eq h
  have hroot : place ≠ [] := by
    rintro rfl
    exact hdirectory rfl
  have hlocate' : (fs.withFile place bytes).locate path = .ok place :=
    locate_withFile hdirectory hlocate
  have hentry : entry? (fs.withFile place bytes) place = some (.file bytes) :=
    entry_withFile_self hroot
  constructor
  · rw [isPresent, if_neg (by simp [hnul]), status, hlocate']
    show Except.ok (Option.isSome <| entry? (fs.withFile place bytes) place) = _
    rw [hentry]
    rfl
  · exact read_eq_ok_iff.2 ⟨hnul, place, hlocate', hentry, hopen⟩

end FileSystem

/-! ## Line breaks -/

/-- A text without carriage returns is read from a file as it is. -/
theorem Text.unifyBreaks_of_not_mem {t : Text} (h : '\r' ∉ t) : t.unifyBreaks = t := by
  have hpaired : t.Paired := fun i hi => absurd (List.mem_of_getElem? hi) h
  rw [unifyBreaks_eq_bare hpaired, bare_of_not_mem h]

/-! ## Settings -/

namespace Settings

open Json (Plain Fits)

/-- What the fields of an object say about a key of a section. A section that is no object says
nothing. -/
def value? (fields : List (Text × Json)) (name key : Text) : Option Json :=
  match Table.find? fields name with
  | some (.obj given) => Table.find? given key
  | _ => none

theorem find?_sectionFields (data : List (Text × Json)) (name : String) (key : Text) :
    Table.find? (sectionFields data name) key = value? data name.toList key := by
  unfold sectionFields value?
  cases Table.find? data name.toList with
  | none => rfl
  | some given => cases given <;> rfl

theorem value?_cons (first : Text) (given rest : List (Text × Json)) (name key : Text) :
    value? ((first, .obj given) :: rest) name key =
      if first = name then Table.find? given key else value? rest name key := by
  unfold value?
  rw [Table.find?]
  split_ifs <;> rfl

theorem value?_toFields (s : Settings) (name key : Text) :
    value? s.toFields name key =
      if "script".toList = name then
        if "encoding".toList = key then some s.encoding
        else if "relative_to_script".toList = key then some s.relativeToScript else none
      else if "assets".toList = name then if "base_dir".toList = key then some s.baseDir else none
      else if "logging".toList = name then if "level".toList = key then some s.level else none
      else none := by
  rw [toFields, value?_cons, value?_cons, value?_cons]
  rfl

/-- The settings have the keys of the defaults, each with the value that is given for it, or its
default where none is given. -/
theorem value?_merge (data : List (Text × Json)) (name key : Text) :
    value? (merge data).toFields name key =
      (value? default.toFields name key).map fun fallback =>
        (value? data name key).getD fallback := by
  rw [value?_toFields, value?_toFields]
  simp only [merge, field, find?_sectionFields]
  split_ifs with hscript hencoding hrelative hassets hbase hlogging hlevel
  all_goals subst_vars; rfl

theorem mem_of_find? {fields : List (Text × Json)} {key : Text} {v : Json}
    (h : Table.find? fields key = some v) : (key, v) ∈ fields := by
  induction fields with
  | nil => cases h
  | cons f fields ih =>
    rw [Table.find?] at h
    split_ifs at h with hkey
    · rw [← Option.some.inj h, ← hkey]
      exact List.mem_cons_self ..
    · exact List.mem_cons_of_mem _ (ih h)

theorem plain_of_value? {data : List (Text × Json)} (hp : Plain (.obj data)) {name key : Text}
    {v : Json} (h : value? data name key = some v) : Plain v := by
  obtain ⟨-, hfields⟩ := Json.plain_obj_iff.1 hp
  unfold value? at h
  split at h
  · rename_i given hfound
    obtain ⟨-, hgiven⟩ := Json.plain_obj_iff.1 (hfields _ (mem_of_find? hfound))
    exact hgiven _ (mem_of_find? h)
  · cases h

theorem plain_toJson {s : Settings} (hencoding : Plain s.encoding)
    (hrelative : Plain s.relativeToScript) (hbase : Plain s.baseDir) (hlevel : Plain s.level) :
    Plain s.toJson := by
  simp [toJson, toFields, Table.keys, hencoding, hrelative, hbase, hlevel]

/-- What is laid over the defaults is plain where what is given is. -/
theorem plain_merge {data : List (Text × Json)} (hp : Plain (.obj data)) :
    Plain (merge data).toJson := by
  have hfield : ∀ (name key : String) {fallback : Json}, Plain fallback →
      Plain (field (sectionFields data name) key fallback) := by
    intro name key fallback hfallback
    rw [field, find?_sectionFields]
    cases hgiven : value? data name.toList key.toList with
    | none => exact hfallback
    | some v => exact plain_of_value? hp hgiven
  exact plain_toJson (hfield "script" "encoding" (.str _))
    (hfield "script" "relative_to_script" (.bool _)) (hfield "assets" "base_dir" .null)
    (hfield "logging" "level" (.str _))

/-- **Settings that are saved are loaded again.** So is the configuration that is made of them, or
the error that they are turned down with; and they hold the keys of the defaults, each with the
value that was given for it or else its default. -/
theorem load_save {data : List (Text × Json)} {fs fs' : FileSystem} {room : Nat} {path : Path}
    (hp : Plain (.obj data)) (hf : Fits room (merge data).toJson)
    (h : (merge data).save fs path = .ok fs') :
    load fs' room (some path) = .ok (merge data) ∧
      Config.load fs' room (some path) = Config.make fs.codecs (merge data) ∧
      merge (merge data).toFields = merge data ∧
      Table.keys (merge data).toFields = Table.keys default.toFields ∧
      ∀ name key : Text, value? (merge data).toFields name key =
        (value? default.toFields name key).map fun fallback =>
          (value? data name key).getD fallback := by
  unfold save at h
  cases hmade : fs.makeDirectories path.parent with
  | error e => simp [hmade] at h
  | ok made =>
    rw [hmade] at h
    have hcodecs : fs'.codecs = fs.codecs := by
      obtain ⟨-, place, -, -, -, rfl⟩ := FileSystem.write_eq h
      have hmade := FileSystem.codecs_makeDirectories hmade
      exact hmade
    have hload : load fs' room (some path) = .ok (merge data) := by
      obtain ⟨hpresent, hread⟩ := FileSystem.read_of_write h
      have htext : (merge data).render.unifyBreaks = (merge data).render :=
        Text.unifyBreaks_of_not_mem (Json.not_mem_write (plain_merge hp) 0)
      have hjson : Json.read room (merge data).render = .ok (.obj (merge data).toFields) :=
        Json.read_render (plain_merge hp) hf
      unfold load
      simp only [hpresent, hread, Utf8.read_encode, htext, hjson, merge_toFields]
    refine ⟨hload, ?_, merge_toFields _, rfl, value?_merge data⟩
    rw [Config.load, hload, ← hcodecs]

/-- Settings of all kinds: a key that is not known, a section that is no object, nested values, and
characters that are escaped. -/
def mixed : List (Text × Json) :=
  [("script".toList, .obj [("encoding".toList, .str "u8\r\n\"\\".toList), ("size".toList, .int 3)]),
   ("assets".toList,
      .obj [("base_dir".toList, .arr [.int (-12), .obj [([], .str ['\x01', 'é'])], .null])]),
   ("logging".toList, .str "INFO".toList)]

theorem load_save_mixed :
    ∃ fs', (merge mixed).save (FileSystem.empty []) (Path.ofText "a/b.json".toList) = .ok fs' ∧
      load fs' 4 (some (Path.ofText "a/b.json".toList)) = .ok (merge mixed) := by
  have hp : Plain (.obj mixed) := by simp [mixed, Table.keys]
  have hf : Fits 4 (merge mixed).toJson := by
    have hdigits : (Text.ofNat 12).length ≤ Json.mostDigits := by decide
    simp [toJson, toFields, merge, mixed, sectionFields, field, default, Table.find?,
      hdigits]
  have hmade : (FileSystem.empty []).makeDirectories (Path.ofText "a".toList) = .ok
      { entries := [([], .directory), (["a".toList], .directory)] } := by
    rw [FileSystem.makeDirectories]
    rfl
  have hsave : (merge mixed).save (FileSystem.empty []) (Path.ofText "a/b.json".toList) = .ok
      (FileSystem.withFile { entries := [([], .directory), (["a".toList], .directory)] }
        ["a".toList, "b.json".toList] (Utf8.encode (merge mixed).render)) := by
    rw [save]
    have : (Path.ofText "a/b.json".toList).parent = Path.ofText "a".toList := by decide
    rw [this, hmade]
    rfl
  exact ⟨_, hsave, (load_save hp hf hsave).1⟩

end Settings

end Playscript
