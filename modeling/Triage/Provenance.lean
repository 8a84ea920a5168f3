import Triage.Walk
import Triage.Rule.Table

/-!
What the names and sizes of files and the version control data say about where a tree comes from.
-/

namespace Triage

namespace Provenance

/-- The endings of compiled programs, libraries and other binary data. -/
def binaryEndings : List Text :=
  [".exe", ".dll", ".so", ".dylib", ".bin", ".dat", ".o", ".a", ".pyc", ".pyo", ".class", ".jar",
   ".war", ".ear", ".wasm", ".node"].map String.ascii

def isBinaryName (name : Text) : Bool := binaryEndings.any (Text.endsWith (Text.toLower name))

/-- Parts of names that suggest an attack. -/
def suspiciousParts : List Text :=
  ["backdoor", "exploit", "payload", "reverse_shell", "keylogger", "stealer", "trojan", "rootkit",
   "c2_", "c2-", "rat_", "rat-"].map String.ascii

def isSuspiciousName (name : Text) : Bool :=
  suspiciousParts.any fun part => Text.occursIn part (Text.toLower name)

/-- Hidden files that are expected in a tree. -/
def expectedHidden : List Text :=
  [".gitignore", ".gitkeep", ".gitattributes", ".editorconfig", ".sigilignore"].map String.ascii

def isHiddenName (name : Text) : Bool :=
  name.head? == some '.'.ascii && !expectedHidden.contains name

/-- Directories at the top of a tree in which compiled files are expected. -/
def binaryDirectories : List Text :=
  ["bin/", "dist/", "build/", "node_modules/", "target/", "__pycache__/"].map String.ascii

def largeSize : Nat := 5000000

def ofFile (f : FileEntry) : List Finding :=
  if f.path.startsWith ".git/".ascii then []
  else
    let name := Text.baseName f.path
    let found (condition : Bool) (rule : Rule) (snippet : Text) : List Finding :=
      if condition then [rule.finding f.path none snippet] else []
    found (isHiddenName name) RuleTable.hiddenFile ("Hidden file: ".ascii ++ name) ++
    found (isBinaryName name && !binaryDirectories.any f.path.startsWith)
      RuleTable.misplacedBinary ("Binary file in unexpected location: ".ascii ++ name) ++
    found (isSuspiciousName name) RuleTable.suspiciousName ("Suspicious filename: ".ascii ++ name) ++
    found (largeSize < f.size) RuleTable.largeFile
      ("Large file: ".ascii ++ Text.ofNat f.size ++ " bytes".ascii)

/-- The findings about the version control data of a tree. -/
def ofHistory (fs : FileSystem) (root : Text) : List Finding :=
  let has (path : String) : Bool := fs.pathExists (Path.join root path.ascii)
  if has ".git" then
    if has ".git/shallow" then
      [RuleTable.shallowClone.finding ".git/shallow".ascii none
        "Shallow clone, limited git history available".ascii]
    else []
  else if has "package.json" || has "setup.py" then
    [RuleTable.missingHistory.finding ".".ascii none
      "No .git directory, provenance cannot be verified from history".ascii]
  else []

def check (fs : FileSystem) (root : Text) (files : List FileEntry) : List Finding :=
  files.flatMap ofFile ++ ofHistory fs root

end Provenance

end Triage
