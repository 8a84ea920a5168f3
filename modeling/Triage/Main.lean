import Std.Time.DateTime.Timestamp
import Triage.FileSystem.Difference
import Triage.Program

/-!
The command line program.

What a command may look at is read from the disk into a tree of files. The command runs on the tree,
and what it changed there is then changed on the disk. External tools are not started, and nothing is
sent over a network.
-/

namespace Triage

namespace Disk

/-! ## Reading -/

def text (s : String) : Text := s.toUTF8.toList

/-- The string for the system. A text that is not UTF-8 names nothing on the disk. -/
def string (s : Text) : String := (String.fromUTF8? ⟨s.toArray⟩).getD ""

def entryAt (names : List Text) : IO.FS.DirEntry :=
  ⟨string (FileSystem.absoluteText names.dropLast), string (names.getLast?.getD [])⟩

/-- Where a link leads; to itself, which is nowhere, if there is nothing. -/
def linkTarget (entry : IO.FS.DirEntry) : IO Text := do
  try
    return text (← IO.FS.realPath entry.path).toString
  catch _ => return text entry.fileName

/-- Reads what is at an entry with everything below it, down to a depth. What cannot be read is left
out. -/
def load : (depth : Nat) → IO.FS.DirEntry → IO (Option Node)
  | 0, _ => return none
  | depth + 1, entry => do
    try
      match (← entry.path.symlinkMetadata).type with
      | .file => do
        let bytes ← IO.FS.readBinFile entry.path
        return some (.file ⟨bytes.toList, 0, false⟩)
      | .dir => do
        let mut entries := []
        for child in ← entry.path.readDir do
          if let some n ← load depth child then
            entries := (text child.fileName, n) :: entries
        return some (.directory entries.reverse)
      | .symlink => return some (.link (← linkTarget entry))
      | .other => return some .pipe
    catch _ => return none

/-- Adds what is at the end of a path to the tree, with the directories and links on the way to
it. -/
def add : (links : Nat) → FileSystem → (here : List Text) → (todo : List Text) → IO FileSystem
  | _, fs, _, [] => return fs
  | links, fs, here, name :: rest => do
    if name == Path.dot then add links fs here rest
    else if name == Path.dotDot then add links fs here.dropLast rest
    else
      let names := here ++ [name]
      match ← load (if rest.isEmpty then FileSystem.maxPath else 1) (entryAt names) with
      | none => return fs
      | some (.link target) =>
        let fs := fs.setAt names (some (.link target))
        let start := if Path.isAbsolute target then [] else here
        match links with
        | 0 => return fs
        | links + 1 => add links fs start (Path.names target ++ rest)
      | some n =>
        if rest.isEmpty then return fs.setAt names (some n)
        else if fs.isDirectoryAt names then add links fs names rest
        else add links (fs.setAt names (some n)) names rest
termination_by links _ _ todo => (links, todo.length)

/-- The paths that the words of a command line may stand for. -/
def mentioned (words : List Text) : List Text :=
  words ++ words.map (Text.after '='.ascii)

/-- The files that a command may look at. -/
def filesFor (c : Config) (words : List Text) : IO FileSystem := do
  let here := text (← IO.currentDir).toString
  let fs := (FileSystem.mk .empty []).makeDirectories here
  let fs := { fs.1 with workingDirectory := Path.names here }
  (c.places ++ mentioned words).foldlM (fun fs path =>
    add FileSystem.maxLinks fs [] (Path.names (fs.absolute path))) fs

def environment : IO (List (Text × Text)) :=
  Config.variableNames.filterMapM fun name => do
    return (← IO.getEnv name).map fun value => (text name, text value)

/-- The standard input, as far as a command reads it. -/
def inputFor (words : List Text) : IO Text := do
  if words.contains Command.login.name then
    let stdin ← IO.getStdin
    return text ((← stdin.getLine) ++ (← stdin.getLine))
  else return []

/-! ## Writing -/

def remove (entry : IO.FS.DirEntry) : IO Unit := do
  match (← entry.path.symlinkMetadata).type with
  | .dir => IO.FS.removeDirAll entry.path
  | _ => IO.FS.removeFile entry.path

def apply : DiskChange → IO Unit
  | .makeDirectory path => IO.FS.createDirAll (string path)
  | .write path bytes => IO.FS.writeBinFile (string path) ⟨bytes.toArray⟩
  | .remove path => remove (entryAt (Path.names path))
  | .move source target => IO.FS.rename (string source) (string target)

def run (words : List Text) : IO UInt32 := do
  let environment ← environment
  let files ← filesFor (.ofMachine ⟨.mk .empty [], environment⟩) words
  let now ← Std.Time.Timestamp.now
  let session :=
    { Session.begin ⟨files, environment⟩ now.toSecondsSinceUnixEpoch.val with
      process := (← IO.monoNanosNow).toUInt32
      input := ← inputFor words }
  let (status, after) := Program.run words session
  (← IO.getStderr).write ⟨after.errors.toArray⟩
  (← IO.getStdout).write ⟨after.output.toArray⟩
  (files.changesTo after.files).forM apply
  return status.toUInt32

end Disk

end Triage

/-- Runs the command that the words name, and ends with its exit status. -/
def main (words : List String) : IO UInt32 := Triage.Disk.run (words.map Triage.Disk.text)
