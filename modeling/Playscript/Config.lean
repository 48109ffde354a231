import Playscript.Json.Reader
import Playscript.Json.Writer
import Playscript.Log
import Playscript.Fault

/-!
# Configuration

Settings are three sections of known keys with a default each. What a file says is laid over the
defaults section by section; unknown sections and keys are dropped. Settings are untyped until a
configuration is made of them, and that is where a bad encoding or log level is turned down.

* `merge_toFields`: laying settings over the defaults gives the settings.
* `levelRank?_isSome_of_make`: the log level of a configuration is one that there is.
-/

namespace Playscript

structure Settings where
  encoding : Json
  relativeToScript : Json
  baseDir : Json
  level : Json

structure Config where
  encoding : Text := "utf-8".toList
  relativeToScript : Bool := false
  assetsDir : Json := .null
  logLevel : Text := "WARNING".toList

inductive ConfigError
  | file (e : FileError)
  | undecodable (u : Undecodable)
  | notJson (e : Json.ReadError)
  | notObject (path : Path)
  | unknownEncoding (name : Text)
  | nulInEncoding
  | unknownLevel (level : Json)

def ConfigError.message : ConfigError → Text
  | file e => e.message
  | undecodable u => u.message
  | notJson e => e.message
  | notObject path => "config ".toList ++ path.toText ++ " must be a JSON object".toList
  | unknownEncoding name => "unknown script encoding ".toList ++ Text.quoted name
  | nulInEncoding => Encoding.Failure.nulInName.message
  | unknownLevel level => "unknown log level ".toList ++ level.inspect

/-- Whether the error says that the configuration is bad, and not that it is out of reach or beyond
what can be read here. -/
def ConfigError.isCaught : ConfigError → Bool
  | file _ => false
  | notJson e => !e.problem.isBeyond
  | _ => true

/-! ## Log levels -/

/-- The capital form of a character, where it consists of ASCII letters; a character with another
capital form, or none, stays, and is part of no level's name. -/
def capital (c : Char) : Text :=
  match c with
  | 'ı' => ['I']
  | 'ſ' => ['S']
  | 'ß' => ['S', 'S']
  | 'ﬀ' => ['F', 'F']
  | 'ﬁ' => ['F', 'I']
  | 'ﬂ' => ['F', 'L']
  | 'ﬃ' => ['F', 'F', 'I']
  | 'ﬄ' => ['F', 'F', 'L']
  | 'ﬅ' => ['S', 'T']
  | 'ﬆ' => ['S', 'T']
  | c => [c.toUpper]

/-- The names of the levels and their ranks. Two levels have a second name, and one name lets
everything through. -/
def levelNames : List (Text × Nat) :=
  [("CRITICAL".toList, 50), ("FATAL".toList, 50), ("ERROR".toList, 40), ("WARN".toList, 30),
   ("WARNING".toList, 30), ("INFO".toList, 20), ("DEBUG".toList, 10), ("NOTSET".toList, 0)]

def levelRank? (name : Text) : Option Nat := (levelNames.find? (·.1 = name)).map (·.2)

/-- The name of a level in capitals. -/
def levelName (level : Json) : Except ConfigError Text :=
  let name := level.plain.flatMap capital
  if (levelRank? name).isSome then .ok name else .error (.unknownLevel level)

/-! ## Settings -/

namespace Settings

def default : Settings :=
  ⟨.str "utf-8".toList, .bool false, .null, .str "WARNING".toList⟩

/-- The fields of a section; one that is missing or no object has none. -/
def sectionFields (data : List (Text × Json)) (name : String) : List (Text × Json) :=
  match Table.find? data name.toList with
  | some (.obj fields) => fields
  | _ => []

def field (fields : List (Text × Json)) (key : String) (fallback : Json) : Json :=
  (Table.find? fields key.toList).getD fallback

/-- The settings that the fields of an object give. -/
def merge (data : List (Text × Json)) : Settings :=
  let script := sectionFields data "script"
  { encoding := field script "encoding" default.encoding
    relativeToScript := field script "relative_to_script" default.relativeToScript
    baseDir := field (sectionFields data "assets") "base_dir" default.baseDir
    level := field (sectionFields data "logging") "level" default.level }

def toFields (s : Settings) : List (Text × Json) :=
  [("script".toList,
      .obj [("encoding".toList, s.encoding), ("relative_to_script".toList, s.relativeToScript)]),
   ("assets".toList, .obj [("base_dir".toList, s.baseDir)]),
   ("logging".toList, .obj [("level".toList, s.level)])]

def toJson (s : Settings) : Json := .obj s.toFields

theorem merge_toFields (s : Settings) : merge s.toFields = s := rfl

/-- Settings from a file, with room for so many arrays and objects inside one another. Without a
file they are the defaults. -/
def load (fs : FileSystem) (room : Nat) (path : Option Path) : Except ConfigError Settings :=
  match path with
  | none => .ok default
  | some path =>
    match fs.isPresent path with
    | .error e => .error (.file e)
    | .ok false => .ok default
    | .ok true =>
      match fs.read path with
      | .error e => .error (.file e)
      | .ok bytes =>
        match Utf8.read bytes with
        | .error u => .error (.undecodable u)
        | .ok text =>
          match Json.read room text.unifyBreaks with
          | .error e => .error (.notJson e)
          | .ok (.obj fields) => .ok (merge fields)
          | .ok _ => .error (.notObject path)

/-- What is written to a file. -/
def render (s : Settings) : Text := s.toJson.render

/-- Write settings to a file, in directories that are made as needed. -/
def save (s : Settings) (fs : FileSystem) (path : Path) : Except FileError FileSystem :=
  match fs.makeDirectories path.parent with
  | .error e => .error e
  | .ok fs => fs.write path (Utf8.encode s.render)

end Settings

/-! ## Configurations -/

namespace Config

/-- The encoding is looked at before the log level. It has to be a name that the codecs have. -/
def make (codecs : Registry) (s : Settings) : Except ConfigError Config :=
  let encoding := s.encoding.plain
  if encoding.contains '\x00' then .error .nulInEncoding
  else if (codecs.find? encoding).isNone then .error (.unknownEncoding encoding)
  else
    match levelName s.level with
    | .error e => .error e
    | .ok level =>
      .ok { encoding
            relativeToScript := s.relativeToScript.isTruthy
            assetsDir := s.baseDir
            logLevel := level }

def load (fs : FileSystem) (room : Nat) (path : Option Path) : Except ConfigError Config :=
  match Settings.load fs room path with
  | .error e => .error e
  | .ok s => make fs.codecs s

theorem levelRank?_isSome_of_make {codecs : Registry} {s : Settings} {c : Config}
    (h : make codecs s = .ok c) :
    (levelRank? c.logLevel).isSome = true := by
  simp only [make] at h
  split at h
  · cases h
  · split at h
    · cases h
    · cases hl : levelName s.level with
      | error e => simp [hl] at h
      | ok level =>
        simp only [hl, Except.ok.injEq] at h
        subst h
        simp only [levelName] at hl
        split at hl
        · cases hl; assumption
        · cases hl

end Config

end Playscript
