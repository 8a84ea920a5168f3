import Triage.Glob

/-!
Ignore rules: globs, one a line, that exclude files from a scan or include them again.

`#` starts a comment, a leading `!` includes again, a slash at the end restricts the glob to
directories. A glob that starts with or contains a slash is matched against the whole relative
path, any other against the base name. The last rule that applies decides.
-/

namespace Triage

structure IgnoreRule where
  glob : Text
  /-- The rule includes what it matches again. -/
  negated : Bool
  directoriesOnly : Bool
  /-- The glob is matched against the whole path. -/
  anchored : Bool
  deriving DecidableEq, Repr

namespace IgnoreRule

def ofLine? (line : Text) : Option IgnoreRule :=
  let line := Text.trim line
  if line.isEmpty || line.head? == some '#'.ascii then none
  else
    let negated := line.head? == some '!'.ascii
    let body := if negated then line.drop 1 else line
    let trimmed := (body.reverse.dropWhile (· == Byte.slash)).reverse
    let glob := trimmed.dropWhile (· == Byte.slash)
    if glob.isEmpty then none
    else some
      { glob, negated
        directoriesOnly := trimmed.length < body.length
        anchored := glob.length < trimmed.length || glob.contains Byte.slash }

def applies (r : IgnoreRule) (path : Text) (isDirectory : Bool) : Bool :=
  (isDirectory || !r.directoriesOnly) &&
    Glob.accepts r.anchored r.glob (if r.anchored then path else Text.baseName path)

end IgnoreRule

abbrev IgnoreRules := List IgnoreRule

namespace IgnoreRules

def parse (text : Text) : IgnoreRules :=
  (Text.splitOn Byte.lineFeed text).filterMap IgnoreRule.ofLine?

/-- The most bytes of an ignore file that are read. -/
def maxFileSize : Nat := 1048576

/-- What the rules say about a path: exclude it, include it, or nothing. -/
def decide? (rules : IgnoreRules) (path : Text) (isDirectory : Bool) : Option Bool :=
  rules.foldl (fun result r => if r.applies path isDirectory then some (!r.negated) else result) none

/-- The directories that are skipped unless a rule includes them: version control data, installed
dependencies, tests, examples and documentation. -/
def skippedDirectories : List Text :=
  [".git", ".hg", ".svn", "node_modules", "vendor", "__pycache__", ".venv", "venv",
   "site-packages", "dist-packages", "test", "tests", "__tests__", "spec", "example", "examples",
   "doc", "docs"].map String.ascii

def isSkippedDirectory (name : Text) : Bool := skippedDirectories.contains name

/-- Whether a path is left out of a scan. -/
def excludes (rules : IgnoreRules) (path : Text) (isDirectory : Bool) : Bool :=
  match rules.decide? path isDirectory with
  | some excluded => excluded
  | none => isDirectory && isSkippedDirectory (Text.baseName path)

end IgnoreRules

end Triage
