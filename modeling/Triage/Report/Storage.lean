import Triage.FileSystem.Change
import Triage.Formats
import Triage.Log
import Triage.Report.Rendering

/-!
Keeping reports in files. Each item has a directory of its own, and a report is named for the time
at which it was made; no report is ever overwritten.
-/

namespace Triage

inductive StorageError where
  | invalidItem (item : Text)
  | cannotCreate (path : Text) (cause : FileError)
  | tooManyReports (item stamp : Text)
  | cannotRead (path : Text)
  | malformed (path : Text)
  deriving DecidableEq, Repr

def StorageError.message : StorageError → Text
  | invalidItem item => "cannot persist report with item id '".ascii ++ item ++ "'".ascii
  | cannotCreate path cause => "cannot create ".ascii ++ path ++ ": ".ascii ++ cause.message
  | tooManyReports item stamp =>
    "too many reports for ".ascii ++ item ++ " at ".ascii ++ stamp
  | cannotRead path => "cannot read report ".ascii ++ path
  | malformed path => "report ".ascii ++ path ++ " is not valid JSON".ascii

namespace Report

/-- The report in the format of a name; the text form if there is no such format. -/
def render (r : Report) (formats : Formats) (format : Text) (least : Option Severity) : Text :=
  (formats.written format r).getD (r.text least)

def load (fs : FileSystem) (formats : Formats) (path : Text) : Except StorageError Report :=
  match fs.readAll? path with
  | none => .error (.cannotRead path)
  | some text =>
    match formats.report text with
    | some report => .ok report
    | none => .error (.malformed path)

/-- Whether an id can be the name of a directory. -/
def isStorable (item : Text) : Bool :=
  !(item.isEmpty || item.contains Byte.slash || item == Path.dot || item == Path.dotDot)

def maxNames : Nat := 999

/-- The `n`th name that is tried: the first is the time alone. -/
def fileStem (stamp : Text) (n : Nat) : Text :=
  if n ≤ 1 then stamp else stamp ++ "_".ascii ++ Text.ofNat n

/-- Writes a text under the first free name from the `n`th on, trying `left` names; gives back the
name. -/
def writeFirstFree (fs : FileSystem) (dir stamp text : Text) :
    (left n : Nat) → Except StorageError (FileSystem × Option Text)
  | 0, _ => .ok (fs, none)
  | left + 1, n =>
    let path := Path.join dir (fileStem stamp n ++ ".json".ascii)
    match fs.writeNew path text with
    | .ok fs => .ok (fs, some (fileStem stamp n))
    | .error .fileExists => writeFirstFree fs dir stamp text left (n + 1)
    | .error e => .error (.cannotCreate path e)

/-- What keeping a report comes to: the path, or why there is none, and what is logged. -/
structure Saved where
  path : Except StorageError Text
  log : List LogMessage

/-- Writes the text form beside a report that was written. -/
def saveText (r : Report) (fs : FileSystem) (dir stem : Text) : FileSystem × Saved :=
  let path := Path.join dir (stem ++ ".json".ascii)
  let textPath := Path.join dir (stem ++ ".txt".ascii)
  let written := LogMessage.info ("report written to ".ascii ++ path)
  match fs.writeNew textPath (r.text none) with
  | .ok fs => (fs, ⟨.ok path, [written]⟩)
  | .error .fileExists =>
    (fs, ⟨.ok path, [.warn ("text report ".ascii ++ textPath ++
      " already exists, left untouched".ascii), written]⟩)
  | .error e => (fs, ⟨.error (.cannotCreate textPath e), []⟩)

def save (r : Report) (formats : Formats) (fs : FileSystem) (reportDir : Text) :
    FileSystem × Saved :=
  if !isStorable r.item then (fs, ⟨.error (.invalidItem r.item), []⟩)
  else
    let dir := Path.join reportDir r.item
    match fs.makeDirectories dir with
    | (fs, .error e) => (fs, ⟨.error (.cannotCreate dir e), []⟩)
    | (fs, .ok ()) =>
      let stamp := Time.compact r.generatedAt
      match writeFirstFree fs dir stamp (r.render formats "json".ascii none) maxNames 1 with
      | .error e => (fs, ⟨.error e, []⟩)
      | .ok (fs, none) => (fs, ⟨.error (.tooManyReports r.item stamp), []⟩)
      | .ok (fs, some stem) => r.saveText fs dir stem

end Report

end Triage
