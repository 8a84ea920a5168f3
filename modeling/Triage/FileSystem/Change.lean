import Triage.FileSystem.Lookup

/-!
Changing a tree of files.

Each operation is a single step: it changes the tree as it says, or fails and leaves it as it was.
Only making a row of directories and copying a tree can fail half-way; these give back what was
made together with the error.
-/

namespace Triage

namespace FileSystem

/-- The tree with the node at a row of names replaced, added, or removed. -/
def setAt (fs : FileSystem) (names : List Text) (value : Option Node) : FileSystem :=
  { fs with root := Node.set value names fs.root }

/-! ## Directories -/

/-- Makes a directory where nothing is yet, not even a link. -/
def makeDirectory (fs : FileSystem) (path : Text) : Except FileError FileSystem := do
  let place ← fs.locate false path
  match place.node with
  | some _ => throw .fileExists
  | none => pure (fs.setAt place.names (some Node.empty))

/-- Makes a directory unless there is one. -/
def ensureDirectory (fs : FileSystem) (path : Text) : Except FileError FileSystem :=
  match fs.makeDirectory path with
  | .error .fileExists => if fs.isDirectory path then .ok fs else .error .fileExists
  | result => result

/-- The directories that are missing on the way to a path, the topmost first. The path and its
leading parts are given, the longest first. -/
def missingDirectories (fs : FileSystem) (found : List Text) :
    List Text → Except FileError (List Text)
  | [] => .ok found
  | path :: shorter =>
    let name := Path.fileName path
    let found := if name == Path.dot || name == Path.dotDot then found else path :: found
    match shorter with
    | [] => .ok found
    | next :: _ =>
      match fs.kind? next with
      | .ok none => fs.missingDirectories found shorter
      | .ok (some .directory) | .error _ => .ok found
      | .ok (some _) => .error .notDirectory

/-- A path without a slash after its last name, and its leading parts, the longest first. -/
def leadingParts (path : Text) : List Text :=
  let elements := (Path.elements path).filter fun e => !e.isEmpty
  ((List.range elements.length).map fun n => Path.ofElements (elements.take (n + 1))).reverse

def ensureAll (fs : FileSystem) : List Text → FileSystem × Except FileError Unit
  | [] => (fs, .ok ())
  | path :: rest =>
    match fs.ensureDirectory path with
    | .ok fs => fs.ensureAll rest
    | .error e => (fs, .error e)

/-- Makes a directory and all that are missing on the way to it. What was made before a failure
stays. -/
def makeDirectories (fs : FileSystem) (path : Text) : FileSystem × Except FileError Unit :=
  if path.isEmpty then (fs, .error .invalid)
  else
    match fs.kind? path with
    | .error e => (fs, .error e)
    | .ok (some .directory) => (fs, .ok ())
    | .ok (some _) => (fs, .error .notDirectory)
    | .ok none =>
      match fs.missingDirectories [] (leadingParts path) with
      | .error e => (fs, .error e)
      | .ok missing => fs.ensureAll missing

def removeDirectory (fs : FileSystem) (path : Text) : Except FileError FileSystem := do
  let place ← fs.locate false path
  match place.node with
  | some (.directory []) => pure (fs.setAt place.names none)
  | some (.directory _) => throw .notEmpty
  | some _ => throw .notDirectory
  | none => throw .notFound

/-! ## Files -/

/-- Removes what is no directory; a link is removed, not what it leads to. -/
def removeFile (fs : FileSystem) (path : Text) : Except FileError FileSystem := do
  let place ← fs.locate false path
  match place.node with
  | some (.directory _) => throw .isDirectory
  | some _ => pure (fs.setAt place.names none)
  | none => throw .notFound

/-- Opens a file to write at its end; it is made if there is none. -/
def openForAppend (fs : FileSystem) (path : Text) : Except FileError (FileSystem × List Text) := do
  let place ← fs.locate true path
  match place.node with
  | some (.directory _) => throw .isDirectory
  | some _ => pure (fs, place.names)
  | none => pure (fs.setAt place.names (some (.file ⟨[], 0, false⟩)), place.names)

/-- Writes at the end of the file at a row of names, if there is one. -/
def append (fs : FileSystem) (names : List Text) (text : Text) : FileSystem :=
  match fs.nodeAt? names with
  | some (.file data) =>
    fs.setAt names (some (.file { data with written := data.bytes ++ text, zeros := 0 }))
  | _ => fs

/-- Writes a file where nothing is yet, not even a link. -/
def writeNew (fs : FileSystem) (path text : Text) : Except FileError FileSystem := do
  let place ← fs.locate false path
  match place.node with
  | some _ => throw .fileExists
  | none => pure (fs.setAt place.names (some (.file ⟨text, 0, false⟩)))

/-! ## Moving and removing trees -/

/-- Moves what is at `source` to `target`, where nothing may be yet. No directory can be moved into
itself. -/
def renameNew (fs : FileSystem) (source target : Text) : Except FileError FileSystem := do
  let old ← fs.locate false source
  match old.node with
  | none => throw .notFound
  | some n =>
    let new ← fs.locate false target
    match new.node with
    | some _ => throw .fileExists
    | none =>
      if old.names.isPrefixOf new.names then throw .invalid
      else pure ((fs.setAt old.names none).setAt new.names (some n))

/-- Removes what is at a path, if there is anything, with everything below it; a link is removed, not
what it leads to. -/
def removeTree (fs : FileSystem) (path : Text) : Except FileError FileSystem :=
  match fs.locate false path with
  | .ok ⟨names, some _⟩ => .ok (fs.setAt names none)
  | .ok ⟨_, none⟩ | .error .notFound => .ok fs
  | .error e => .error e

/-! ## Copying -/

end FileSystem

namespace Node

mutual

/-- The copy of a node, as far as it can be made, and whether it is complete: a pipe cannot be
copied, and nothing is copied after one. -/
def copy : Node → Option Node × Bool
  | file data => (some (file data), true)
  | link target => (some (link target), true)
  | pipe => (none, false)
  | directory entries =>
    let (copied, complete) := copyEntries entries
    (some (directory copied), complete)

def copyEntries : List (Text × Node) → List (Text × Node) × Bool
  | [] => ([], true)
  | (name, n) :: rest =>
    match copy n with
    | (some c, true) =>
      let (copied, complete) := copyEntries rest
      ((name, c) :: copied, complete)
    | (some c, false) => ([(name, c)], false)
    | (none, _) => ([], false)

end

end Node

namespace FileSystem

/-- Copies a tree to a place where nothing is yet; links are copied as links. What was copied before
a failure stays. -/
def copyTree (fs : FileSystem) (source target : Text) : FileSystem × Except FileError Unit :=
  match fs.node false source, fs.locate false target with
  | .error e, _ | _, .error e => (fs, .error e)
  | .ok n, .ok place =>
    match place.node with
    | some _ => (fs, .error .fileExists)
    | none =>
      let (copied, complete) := n.copy
      (fs.setAt place.names copied, if complete then .ok () else .error .invalid)

end FileSystem

end Triage
