import Triage.Content
import Triage.Provenance
import Triage.Rule.Search

/-!
The built-in detection: provenance of the tree, and the line rules on every eligible file.

Every eligible file is either scanned or skipped with a note.
-/

namespace Triage

/-- What the built-in rules found in a tree. -/
structure Detection where
  findings : List Finding
  notes : List Text
  filesScanned : Nat
  deriving DecidableEq, Repr

namespace Detection

def linePhases : List Phase :=
  [.installHooks, .codePatterns, .networkExfil, .credentials, .obfuscation]

def inText (phases : List Phase) (path text : Text) : List Finding :=
  LineRule.findAll RuleTable.phaseRules phases path text

/-- A file that was scanned, with its findings, or skipped for a reason. -/
def scanFile (fs : FileSystem) (phases : List Phase) (limit : Nat) (f : FileEntry) :
    Except SkipReason (List Finding) :=
  (Content.load fs limit f).map (inText phases f.path)

def skipNote (f : FileEntry) (reason : SkipReason) : Text :=
  "skipped ".ascii ++ f.path ++ ": ".ascii ++ reason.message

def empty : Detection := ⟨[], [], 0⟩

/-- Counts a file that was looked at. -/
def add (d : Detection) (f : FileEntry) : Except SkipReason (List Finding) → Detection
  | .ok found => { d with findings := d.findings ++ found, filesScanned := d.filesScanned + 1 }
  | .error reason => { d with notes := d.notes ++ [skipNote f reason] }

def scanFiles (fs : FileSystem) (phases : List Phase) (limit : Nat) (files : List FileEntry) :
    Detection :=
  (files.filter FileEntry.eligible).foldl (fun d f => d.add f (scanFile fs phases limit f)) empty

/-- Applies the rules of the selected phases to a tree. -/
def run (fs : FileSystem) (phases : List Phase) (limit : Nat) (root : Text)
    (files : List FileEntry) : Detection :=
  let provenance :=
    if Phase.selected phases .provenance then Provenance.check fs root files else []
  let lines :=
    if linePhases.any (Phase.selected phases) then scanFiles fs phases limit files else empty
  { lines with findings := Finding.sort (provenance ++ lines.findings) }

end Detection

end Triage
