import Playscript.CommandLine

/-!
# The program

The command line at work on a disk. The disk is looked at along each path that is about to be
opened, and what is there goes into the file system that the library works on. Of codecs this has
the standard registry, and for nesting the usual room. Lines are printed as they come, so a script
that plays for ever prints for ever.
-/

namespace Playscript.Main

/-- What an action gives, or what stands for it where permission is denied. -/
def unlessDenied {α : Type} (denied : α) (action : IO α) : IO α := do
  try action
  catch
    | .permissionDenied .. => return denied
    | e => throw e

/-- The file system with what stands at a place of the disk, if anything does. A file that may not
be read is closed, and so is the directory above a place that cannot be looked at. -/
def lookAt (fs : FileSystem) (place : Place) : IO (Option FileSystem) := do
  let name := String.ofList ('/' :: ['/'].intercalate place)
  let put (entry : Entry) : FileSystem := { fs with entries := fs.entries.put place entry }
  let below := { fs with closed := place.dropLast :: fs.closed }
  try
    unlessDenied (some below) do
      let real ← IO.FS.realPath name
      if ← real.isDir then return some (put .directory)
      unlessDenied (some { put (.file []) with closed := place :: fs.closed }) do
        let bytes ← IO.FS.readBinFile real
        return some (put (.file bytes.toList))
  catch _ => return none

/-- Look at the disk along a path, one component after the other. -/
def look (fs : FileSystem) (path : Path) : IO FileSystem := do
  if FileSystem.hasNul path then return fs
  let mut seen := fs
  for n in [0:path.parts.length] do
    match seen.locate { path with parts := path.parts.take (n + 1) } with
    | .error _ => return seen
    | .ok place =>
      match ← lookAt seen place with
      | some more => seen := more
      | none => return seen
  return seen

def lookAtAll (fs : FileSystem) (paths : List Text) : IO FileSystem :=
  paths.foldlM (fun fs path => look fs (Path.ofText path)) fs

/-- Look at the target of the jump that comes next, if one does. -/
def lookAhead (e : Engine) : IO Engine := do
  match e.peek with
  | .ok (some (.directive (.jump path _))) =>
    let files ← look e.world.files (Engine.resolvePath e.world path)
    return e.onWorld fun p => { p with files }
  | _ => return e

def printLines (out err : List Text) : IO Unit := do
  for line in out do IO.println (String.ofList line)
  for line in err do IO.eprintln (String.ofList line)

partial def play (threshold : Nat) (e : Engine) : IO UInt32 := do
  printLines [] (Record.shown threshold e.records)
  let e ← lookAhead e.forget
  match CommandLine.step e with
  | .line e text =>
    printLines [text] []
    play threshold e
  | .finished e =>
    printLines [] (Record.shown threshold e.records)
    return 0
  | .failed e error =>
    printLines [] (Record.shown threshold e.records ++ [CommandLine.errorLine error])
    return 1

def usageText : String :=
  "usage: vnscript [-h] [--config CONFIG] [--log-level LOG_LEVEL] \x7brun,check\x7d ..."

def finish : Ending → IO UInt32
  | .usage .help => do
    IO.println usageText
    return 0
  | .usage .misuse => do
    IO.eprintln usageText
    return 2
  | .done o | .unfinished o => do
    printLines o.out o.err
    return UInt32.ofNat o.status
  | .escaped e => do
    printLines [] [e.message]
    return 1

def obey (fs : FileSystem) (request : Request) : IO UInt32 := do
  let fs ← lookAtAll fs request.config.toList
  match CommandLine.settle fs Json.usualRoom request with
  | .error ending => finish ending
  | .ok (config, threshold) =>
    match request.command with
    | .run script =>
      let fs ← lookAtAll fs [script]
      match CommandLine.openEngine fs config script with
      | .error ending => finish ending
      | .ok engine => play threshold engine
    | .check files =>
      let fs ← lookAtAll fs files
      finish (.done (CommandLine.check fs config threshold files))

end Playscript.Main

def main (args : List String) : IO UInt32 := do
  match Playscript.Request.read (args.map String.toList) with
  | .error usage => Playscript.Main.finish (.usage usage)
  | .ok request =>
    let here := Playscript.Path.ofText (← IO.currentDir).toString.toList
    Playscript.Main.obey (Playscript.FileSystem.empty here.parts) request
