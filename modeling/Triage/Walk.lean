import Triage.Ignore
import Triage.FileSystem.Lookup

/-!
Listing the files of a tree.

A walk visits the entries below a root without following links, and descends into a directory
unless the ignore rules exclude it. It lists the regular files in the order of their paths, and
notes what it could not look at. An entry whose full path is longer than the system takes cannot
be looked at, but the walk still descends into it.
-/

namespace Triage

/-- A file found by a walk. -/
structure FileEntry where
  /-- The path below the root. -/
  path : Text
  /-- The path by which the file can be opened. -/
  fullPath : Text
  size : Nat
  /-- The content is scanned, going by the name. -/
  eligible : Bool
  deriving DecidableEq, Repr

namespace FileEntry

/-- The endings of scripts, source code, markup, configuration and data. -/
def eligibleEndings : List Text :=
  [".py", ".pyw", ".js", ".mjs", ".cjs", ".ts", ".jsx", ".tsx", ".json", ".yml", ".yaml", ".toml",
   ".cfg", ".ini", ".conf", ".env", ".lock", ".sh", ".bash", ".zsh", ".fish", ".ps1", ".bat",
   ".cmd", ".md", ".rst", ".txt", ".html", ".htm", ".css", ".scss", ".xml", ".csv", ".rb", ".go",
   ".rs", ".java", ".kt", ".swift", ".c", ".h", ".cpp", ".hpp", ".cc", ".cs", ".php", ".pl",
   ".lua", ".r", ".gradle", ".cmake", ".make", ".mk", ".dockerfile"].map String.ascii

def eligibleNames : List Text :=
  ["Makefile", "makefile", "GNUmakefile", "Dockerfile", "Containerfile", "Pipfile", "Gemfile",
   "Rakefile", "Jenkinsfile", "Vagrantfile", "Procfile", "BUILD", "WORKSPACE", ".env", ".npmrc",
   ".pypirc", ".bashrc", ".profile", ".zshrc"].map String.ascii

/-- The ending of a name from its last dot on, if there is something before the dot. -/
def ending? (name : Text) : Option Text :=
  if name.contains '.'.ascii then
    let stem := (name.reverse.dropWhile (· != '.'.ascii)).drop 1
    if stem.isEmpty then none else some (name.drop stem.length)
  else none

def isEligible (path : Text) : Bool :=
  let name := Text.baseName path
  let lower := Text.toLower name
  eligibleNames.contains name || lower.startsWith "dockerfile".ascii ||
    (ending? lower).any eligibleEndings.contains

end FileEntry

namespace Node

mutual

/-- The entries below a node with their paths, a directory before what it holds; the listing goes
into a directory only if `descend` allows its path. -/
def entriesBelow (descend : Text → Bool) (path : Text) : Node → List (Text × Node)
  | directory entries => entriesOf descend path entries
  | _ => []

/-- The entries of a directory at `path` and what is below them. -/
def entriesOf (descend : Text → Bool) (path : Text) : List (Text × Node) → List (Text × Node)
  | [] => []
  | (name, n) :: rest =>
    let here := Path.join path name
    (here, n) :: ((if descend here then entriesBelow descend here n else []) ++
      entriesOf descend path rest)

end

end Node

/-- What a walk found. -/
structure WalkResult where
  files : List FileEntry
  notes : List Text
  deriving DecidableEq, Repr

namespace WalkResult

/-- Whether the system takes the path of an entry below `root`. -/
def reachable (root path : Text) : Bool := (Path.join root path).length ≤ FileSystem.maxPath

/-- Whether a walk with these rules goes into the directory at a path. -/
def descends (rules : IgnoreRules) (root path : Text) : Bool :=
  !reachable root path || !rules.excludes path true

/-- The file entry of an entry, if it is a regular file that is not excluded. -/
def file? (rules : IgnoreRules) (root : Text) : Text × Node → Option FileEntry
  | (path, .file data) =>
    if reachable root path && !rules.excludes path false then
      some ⟨path, Path.join root path, data.size, FileEntry.isEligible path⟩
    else none
  | _ => none

/-- The note on an entry that cannot be looked at. -/
def note? (root : Text) : Text × Node → Option Text
  | (path, _) =>
    if reachable root path then none
    else some ("cannot stat ".ascii ++ path ++ ": ".ascii ++ FileError.nameTooLong.message)

def sortFiles (files : List FileEntry) : List FileEntry :=
  files.mergeSort fun a b => !(b.path < a.path)

def ofTree (fs : FileSystem) (rules : IgnoreRules) (root : Text) : WalkResult :=
  match fs.listDirectory root with
  | .error e => ⟨[], ["cannot open ".ascii ++ root ++ ": ".ascii ++ e.message]⟩
  | .ok entries =>
    let visited := Node.entriesOf (descends rules root) [] entries
    ⟨sortFiles (visited.filterMap (file? rules root)), visited.filterMap (note? root)⟩

end WalkResult

/-- Every regular file below a root that can be looked at, with nothing excluded. -/
def allFiles (fs : FileSystem) (root : Text) : List FileEntry :=
  match fs.listDirectory root with
  | .error _ => []
  | .ok entries =>
    (Node.entriesOf (fun _ => true) [] entries).filterMap fun (path, n) =>
      match n with
      | .file data =>
        if WalkResult.reachable root path then some ⟨path, Path.join root path, data.size, false⟩
        else none
      | _ => none

end Triage
