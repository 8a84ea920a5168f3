import Triage.FileSystem.Node
import Triage.FileSystem.Path

/-!
Finding things in a tree of files.

A path is followed name by name from the root or the working directory. Links on the way are
followed, at most forty of them. The result is a location: the names from the root, free of links,
and what is there. Every way of failing is a `FileError` with the wording of the system.
-/

namespace Triage

inductive FileError where
  | notFound | notDirectory | isDirectory | nameTooLong | tooManyLinks | fileExists | notEmpty
  | invalid
  deriving DecidableEq, Repr

def FileError.message : FileError → Text
  | notFound => "No such file or directory".ascii
  | notDirectory => "Not a directory".ascii
  | isDirectory => "Is a directory".ascii
  | nameTooLong => "File name too long".ascii
  | tooManyLinks => "Too many levels of symbolic links".ascii
  | fileExists => "File exists".ascii
  | notEmpty => "Directory not empty".ascii
  | invalid => "Invalid argument".ascii

/-- A tree of files and the directory from which relative paths start. -/
structure FileSystem where
  root : Node
  workingDirectory : List Text
  deriving Repr

/-- The outcome of following a path: the names from the root, and the node if there is one. -/
structure Location where
  names : List Text
  node : Option Node

namespace FileSystem

def maxPath : Nat := 4095

def maxName : Nat := 255

/-- The most links that are followed on one path. -/
def maxLinks : Nat := 40

/-- The node at a row of names from the root, with no link followed. -/
def nodeAt? (fs : FileSystem) (names : List Text) : Option Node := fs.root.find? names

def isDirectoryAt (fs : FileSystem) (names : List Text) : Bool :=
  match fs.nodeAt? names with
  | some (.directory _) => true
  | _ => false

/-- Follows `todo` from the location `here`. A link in last place is followed if `followLast`. -/
def follow (fs : FileSystem) (followLast : Bool) (links : Nat) (here : List Text) (todo : List Text) :
    Except FileError Location :=
  match todo with
  | [] => .ok ⟨here, fs.nodeAt? here⟩
  | name :: rest =>
    if !fs.isDirectoryAt here then .error .notDirectory
    else if name == Path.dot then fs.follow followLast links here rest
    else if name == Path.dotDot then fs.follow followLast links here.dropLast rest
    else if maxName < name.length then .error .nameTooLong
    else
      match fs.nodeAt? (here ++ [name]) with
      | none => if rest.isEmpty then .ok ⟨here ++ [name], none⟩ else .error .notFound
      | some (.link target) =>
        if rest.isEmpty && !followLast then .ok ⟨here ++ [name], some (.link target)⟩
        else
          match links with
          | 0 => .error .tooManyLinks
          | links + 1 =>
            let start := if Path.isAbsolute target then [] else here
            fs.follow followLast links start (Path.names target ++ rest)
      | some _ => fs.follow followLast links (here ++ [name]) rest
termination_by (links, todo.length)

/-- The location that a path leads to. A path with a slash at its end leads to a directory; a path
ends at its first zero byte. -/
def locate (fs : FileSystem) (followLast : Bool) (path : Text) : Except FileError Location :=
  let path := Text.before 0 path
  if path.isEmpty then .error .notFound
  else if maxPath < path.length then .error .nameTooLong
  else do
    let start := if Path.isAbsolute path then [] else fs.workingDirectory
    let slash := Path.endsInSlash path
    let found ← fs.follow (followLast || slash) maxLinks start (Path.names path)
    match found.node with
    | some (.directory _) | none => pure found
    | some _ => if slash then throw .notDirectory else pure found

/-- What is at the end of a path. -/
def node (fs : FileSystem) (followLast : Bool) (path : Text) : Except FileError Node := do
  match (← fs.locate followLast path).node with
  | some n => pure n
  | none => throw .notFound

/-- The kind of what is at the end of a path, links followed; nothing counts as no error. -/
def kind? (fs : FileSystem) (path : Text) : Except FileError (Option NodeKind) :=
  match fs.node true path with
  | .ok n => .ok (some n.kind)
  | .error .notFound | .error .notDirectory => .ok none
  | .error e => .error e

def pathExists (fs : FileSystem) (path : Text) : Bool := (fs.node true path).isOk

/-- Whether anything, be it a link, is at the end of a path. -/
def entryExists (fs : FileSystem) (path : Text) : Bool := (fs.node false path).isOk

def isDirectory (fs : FileSystem) (path : Text) : Bool :=
  match fs.node true path with
  | .ok (.directory _) => true
  | _ => false

def isExecutableFile (fs : FileSystem) (path : Text) : Bool :=
  match fs.node true path with
  | .ok (.file data) => data.executable
  | _ => false

/-- Whether what a path leads to may be executed or entered. -/
def mayExecute (fs : FileSystem) (path : Text) : Bool :=
  match fs.node true path with
  | .ok (.file data) => data.executable
  | .ok (.directory _) => true
  | _ => false

/-- The tree with the working directory at the end of a path, if there is a directory. -/
def enter? (fs : FileSystem) (path : Text) : Option FileSystem :=
  match fs.locate true path with
  | .ok ⟨names, some (.directory _)⟩ => some { fs with workingDirectory := names }
  | _ => none

/-! ## Reading -/

/-- The whole contents of a file. A directory opens but has nothing to read. -/
def readAll? (fs : FileSystem) (path : Text) : Option Text :=
  match fs.node true path with
  | .ok (.file data) => some data.bytes
  | .ok (.directory _) => some []
  | _ => none

def readUpTo? (fs : FileSystem) (limit : Nat) (path : Text) : Option Text :=
  match fs.node true path with
  | .ok (.file data) => some (data.firstBytes limit)
  | _ => none

def readLines (fs : FileSystem) (path : Text) : List Text :=
  match fs.node true path with
  | .ok (.file data) => Text.lines data.bytes
  | _ => []

def listDirectory (fs : FileSystem) (path : Text) : Except FileError (List (Text × Node)) := do
  match ← fs.node true path with
  | .directory entries => pure entries
  | _ => throw .notDirectory

/-! ## Canonical paths -/

/-- The path of a location, written from the root. -/
def absoluteText (names : List Text) : Text := Byte.slash :: Text.joinWith [Byte.slash] names

/-- The longest leading part of a list of elements that leads to something, and the other elements.
Fails if a part can neither be found nor be said to be missing. -/
def existingPart (fs : FileSystem) (found : Text) : List Text → Except FileError (Text × List Text)
  | [] => .ok (found, [])
  | e :: rest => do
    match ← fs.kind? (Path.join found e) with
    | some _ => fs.existingPart (Path.join found e) rest
    | none => pure (found, e :: rest)

/-- The path without links and dots as far as it exists, and in normal form after that. A relative
path of which nothing exists stays relative. -/
def canonical (fs : FileSystem) (path : Text) : Except FileError Text := do
  match ← fs.kind? path with
  | some _ => pure (absoluteText (← fs.locate true path).names)
  | none =>
    let (found, missing) ← fs.existingPart [] (Path.elements path)
    let start ← if found.isEmpty then pure [] else
      pure (absoluteText (← fs.locate true found).names)
    pure (Path.normal (missing.foldl Path.join start))

/-- The path written from the root, with nothing else changed. -/
def absolute (fs : FileSystem) (path : Text) : Text :=
  if Path.isAbsolute path then path else Path.join (absoluteText fs.workingDirectory) path

end FileSystem

end Triage
