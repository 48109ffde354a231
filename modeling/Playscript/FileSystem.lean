import Playscript.Encoding
import Playscript.Path
import Playscript.Table

/-!
# File system

A tree of files and directories, kept as one table from places to entries, and the directory in
which relative paths start. A place is the list of names that leads to it from the root; the root
itself is always a directory. Each component of a path is looked up from where the earlier ones
led, so a double dot works only below a directory that is there.

Some of what is there may not be used. What is closed may be neither entered nor read nor changed,
and what is fixed may not be changed. Every other permission is taken to be given: a file that may
be written but not read is not among the cases, nor is a directory that may be listed but not
entered. There are no links, no files but regular ones, and no errors of the devices behind them.
Nothing else changes the tree meanwhile.

* `read_eq_ok_iff`: which files are read.
-/

namespace Playscript

/-- Why the file system refuses a path. -/
inductive Refusal
  | absent
  | taken
  | notDirectory
  | isDirectory
  | nameTooLong
  | denied
  deriving DecidableEq, Repr

/-- A path with a NUL is turned down before it reaches the file system. -/
inductive FileError
  | nulInPath
  | refused (why : Refusal) (path : Path)
  deriving DecidableEq, Repr

abbrev Place := List Text

inductive Entry
  | file (bytes : List UInt8)
  | directory
  deriving DecidableEq, Repr

/-- The codecs that texts are read with belong to the system like its files. -/
structure FileSystem where
  entries : Table Place Entry := []
  here : Place := []
  closed : List Place := []
  fixed : List Place := []
  codecs : Registry := .standard

namespace FileSystem

/-- A file system with nothing but the directory `here` and those above it. -/
def empty (here : Place) : FileSystem :=
  { entries := (List.range (here.length + 1)).map fun n => (here.take n, Entry.directory), here }

def entry? (fs : FileSystem) (place : Place) : Option Entry :=
  if place = [] then some .directory else fs.entries.find? place

/-- Names are limited in bytes, and so are whole paths. -/
def longestName : Nat := 255

def longestPath : Nat := 4095

/-- Where a name leads from a place. -/
def enter (fs : FileSystem) (place : Place) (name : Text) : Except Refusal Place :=
  match fs.entry? place with
  | none => .error .absent
  | some (.file _) => .error .notDirectory
  | some .directory =>
    if place ∈ fs.closed then .error .denied
    else if name = ['.', '.'] then .ok place.dropLast
    else if longestName < (Utf8.encode name).length then .error .nameTooLong
    else .ok (place ++ [name])

def start (fs : FileSystem) (path : Path) : Place := if path.isRooted then [] else fs.here

/-- Where a path leads; whether anything is there is another question. -/
def locate (fs : FileSystem) (path : Path) : Except Refusal Place :=
  if longestPath < (Utf8.encode path.toText).length then .error .nameTooLong
  else path.parts.foldlM fs.enter (fs.start path)

/-- The entry at the end of a path, if the path can be followed. -/
def status (fs : FileSystem) (path : Path) : Except Refusal (Option Entry) :=
  fs.entry? <$> fs.locate path

def hasNul (path : Path) : Bool := path.parts.any fun name => name.contains '\x00'

def read (fs : FileSystem) (path : Path) : Except FileError (List UInt8) :=
  if hasNul path then .error .nulInPath
  else
    match fs.locate path with
    | .error why => .error (.refused why path)
    | .ok place =>
      match fs.entry? place with
      | none => .error (.refused .absent path)
      | some entry =>
        if place ∈ fs.closed then .error (.refused .denied path)
        else
          match entry with
          | .directory => .error (.refused .isDirectory path)
          | .file bytes => .ok bytes

theorem read_eq_ok_iff {fs : FileSystem} {path : Path} {bytes : List UInt8} :
    fs.read path = .ok bytes ↔
      hasNul path = false ∧ ∃ place, fs.locate path = .ok place ∧
        fs.entry? place = some (.file bytes) ∧ place ∉ fs.closed := by
  unfold read
  cases hasNul path with
  | true => simp
  | false =>
    cases fs.locate path with
    | error why => simp
    | ok place =>
      cases hentry : fs.entry? place with
      | none => simp [hentry]
      | some entry =>
        by_cases hclosed : place ∈ fs.closed
        · simp [hclosed, hentry]
        · cases entry <;> simp [hclosed, hentry]

/-- A path that leads nowhere is simply not there; one with too long a name is an error, and so is
one that leads through a closed directory. -/
def isPresent (fs : FileSystem) (path : Path) : Except FileError Bool :=
  if hasNul path then .ok false
  else
    match fs.status path with
    | .error .nameTooLong => .error (.refused .nameTooLong path)
    | .error .denied => .error (.refused .denied path)
    | .error _ => .ok false
    | .ok entry => .ok entry.isSome

def isDirectory (fs : FileSystem) (path : Path) : Bool :=
  match fs.status path with
  | .ok (some .directory) => true
  | _ => false

/-- What is at a place may not be changed, or nothing may be put there. -/
def isBarred (fs : FileSystem) (place : Place) : Bool :=
  fs.closed.contains place || fs.fixed.contains place
    || (fs.entry? place).isNone && fs.fixed.contains place.dropLast

/-- Writing makes a file or replaces one. -/
def write (fs : FileSystem) (path : Path) (bytes : List UInt8) : Except FileError FileSystem :=
  if hasNul path then .error .nulInPath
  else
    match fs.locate path with
    | .error why => .error (.refused why path)
    | .ok place =>
      if fs.entry? place = some .directory then .error (.refused .isDirectory path)
      else if fs.isBarred place then .error (.refused .denied path)
      else .ok { fs with entries := fs.entries.put place (.file bytes) }

/-- Make one directory below one that is there. -/
def makeDirectory (fs : FileSystem) (path : Path) : Except FileError FileSystem :=
  if hasNul path then .error .nulInPath
  else
    match fs.locate path with
    | .error why => .error (.refused why path)
    | .ok place =>
      if (fs.entry? place).isSome then .error (.refused .taken path)
      else if fs.isBarred place then .error (.refused .denied path)
      else .ok { fs with entries := fs.entries.put place .directory }

/-- An error that does not matter where the directory is there already. -/
def unlessDirectory (fs : FileSystem) (path : Path) (e : FileError) : Except FileError FileSystem :=
  if fs.isDirectory path then .ok fs else .error e

/-- Make a directory and those missing above it; one that is already there will do. -/
def makeDirectories (fs : FileSystem) (path : Path) : Except FileError FileSystem :=
  match fs.makeDirectory path with
  | .ok made => .ok made
  | .error (.refused .absent p) =>
    if path.parts = [] then .error (.refused .absent p)
    else
      match makeDirectories fs path.parent with
      | .error e => .error e
      | .ok above =>
        match above.makeDirectory path with
        | .ok made => .ok made
        | .error e => unlessDirectory above path e
  | .error e => unlessDirectory fs path e
termination_by path.parts.length
decreasing_by
  simp only [Path.parent, List.length_dropLast]
  have := List.length_pos_iff.2 ‹path.parts ≠ []›
  omega

/-- Put an entry in its place, and directories above it. What cannot be put there is left out. -/
def install (fs : FileSystem) (path : Path) (entry : Entry) : FileSystem :=
  match entry with
  | .directory => (fs.makeDirectories path).toOption.getD fs
  | .file bytes =>
    match fs.makeDirectories path.parent with
    | .error _ => fs
    | .ok above => (above.write path bytes).toOption.getD above

/-- An empty directory two levels below the root. No path component holds a slash, so no path can
name the directory; it is only ever where a relative path starts. -/
def nameless : FileSystem := empty [['/'], ['/']]

end FileSystem

namespace Refusal

def number : Refusal → Nat
  | absent => 2
  | denied => 13
  | taken => 17
  | notDirectory => 20
  | isDirectory => 21
  | nameTooLong => 36

def text : Refusal → String
  | absent => "No such file or directory"
  | denied => "Permission denied"
  | taken => "File exists"
  | notDirectory => "Not a directory"
  | isDirectory => "Is a directory"
  | nameTooLong => "File name too long"

end Refusal

def FileError.message : FileError → Text
  | .nulInPath => "embedded null byte".toList
  | .refused why path =>
    "[Errno ".toList ++ Text.ofNat why.number ++ "] ".toList ++ why.text.toList ++ ": ".toList
      ++ Text.quoted path.toText

end Playscript
