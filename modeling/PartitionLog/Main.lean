import PartitionLog.Cli.Run

/-!
# The command line

Shows the file system to a run as a tree. Of a data directory it loads the names, and then the
contents of the files that the run rebuilds stores from. Links are passed over, and so is what lies
below an excluded name.
-/
namespace PartitionLog.Cli

/-! ## Failures of the system -/

/-- A system error by its number, which some calls give with the opposite sign. -/
def ioErrorOfNumber (code : UInt32) (details : String) : IoError :=
  match code.toInt32.toInt.natAbs with
  | 2 => .notFound
  | 17 => .alreadyExists
  | 20 => .notADirectory
  | 21 => .isADirectory
  | 36 => .nameTooLong
  | number => .other (details.capitalize ++ " (os error " ++ number.repr ++ ")")

def ioErrorOf : IO.Error → IoError
  | .noFileOrDirectory _ code details => ioErrorOfNumber code details
  | .inappropriateType _ code details => ioErrorOfNumber code details
  | .permissionDenied _ code details => ioErrorOfNumber code details
  | .invalidArgument _ code details => ioErrorOfNumber code details
  | .resourceExhausted _ code details => ioErrorOfNumber code details
  | .otherError code details => ioErrorOfNumber code details
  | e => .other (toString e)

/-! ## Loading -/

/-- A directory entry with all names below it, unless it is neither a directory nor a file. -/
partial def loadEntry (config : ReaderConfig) (entry : IO.FS.DirEntry) :
    IO (Option (RawText × FileNode)) := do
  match (← entry.path.symlinkMetadata).type with
  | .file => return some (.ofString entry.fileName, .file [])
  | .dir =>
    if config.isExcluded entry.fileName then return some (.ofString entry.fileName, .dir [])
    let entries ← (← entry.path.readDir).toList.filterMapM (loadEntry config)
    return some (.ofString entry.fileName, .dir entries)
  | _ => return none

def loadNames (config : ReaderConfig) (path : Path) : IO FileNode := do
  let dir ← IO.FS.realPath path.text.shown
  if (← dir.metadata).type == .dir then
    return .dir (← (← dir.readDir).toList.filterMapM (loadEntry config))
  return .file []

def loadFile (path : Path) : IO FileNode := do
  try
    return .file (← IO.FS.readBinFile path.text.shown).toList
  catch e =>
    if ioErrorOf e = .isADirectory then return .dir [] else throw e

def loadContents (tree : FileTree) (path : Path) : IO FileTree := do
  let contents ← IO.FS.readBinFile path.text.shown
  match tree.putFile path contents.toList with
  | .ok tree => return tree
  | .error _ => return tree

def mountAt (path : Path) (load : IO FileNode) : IO FileTree := do
  return { mount := path, root := (← load.toBaseIO).mapError ioErrorOf }

def load (invocation : Invocation) : IO FileTree := do
  let path := invocation.command.path
  match invocation.command with
  | .segment .. => mountAt path (loadFile path)
  | _ =>
    let tree ← mountAt path (loadNames invocation.readerConfig path)
    (invocation.storeFiles tree).foldlM loadContents tree

/-- A file that cannot be read leaves nothing to report but that. -/
def perform (invocation : Invocation) : IO Outcome := do
  match ← (load invocation).toBaseIO with
  | .ok tree => return invocation.run tree
  | .error e => return invocation.fail ["reading files", (ioErrorOf e).message]

end PartitionLog.Cli

open PartitionLog in
def main (args : List String) : IO UInt32 := do
  let outcome ← match Cli.Invocation.ofArguments args with
    | .ok invocation => Cli.perform invocation
    | .error e => pure e.outcome
  IO.print outcome.stdout
  IO.eprint outcome.stderr
  return outcome.code
