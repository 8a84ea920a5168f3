import Triage.Pass.Cloud
import Triage.Pass.Dependencies
import Triage.Pass.External
import Triage.Pass.Phases
import Triage.Quarantine
import Triage.Report.Storage
import Triage.Tool.Adapter

/-!
Scanning targets.

A scan lists the files of a tree, takes its fingerprint, runs the passes, and makes a report of
what they have found. Several targets are run one after the other, as a single worker does it: each
is scanned, and its report kept, on the files that the one before has left.
-/

namespace Triage

structure ScanTarget where
  path : Text
  /-- The id of the item, or one made from the path. -/
  item : Text
  deriving DecidableEq, Repr

inductive ScanError where
  | notDirectory (path : Text)
  | score (cause : ScoreError)
  | storage (cause : StorageError)
  deriving DecidableEq, Repr

def ScanError.message : ScanError → Text
  | notDirectory path => "cannot scan ".ascii ++ path ++ ": not a directory".ascii
  | score cause => cause.message
  | storage cause => cause.message

/-- What a scan needs besides its target. -/
structure Scanner where
  machine : Machine
  config : Config
  formats : Formats
  passes : List Pass
  /-- What is logged when the passes are set up. -/
  setup : List LogMessage
  now : Int

/-- What comes of one target. -/
structure ScanOutcome where
  target : ScanTarget
  report : Option Report
  /-- Where the report is kept; empty if it is not. -/
  saved : Text
  error : Option ScanError

namespace Scanner

/-! ## The passes -/

/-- The passes that run unless others are asked for. -/
def standardPasses (c : Config) (programs : Programs) (formats : Formats)
    (answer : Request → Reply) : List Pass :=
  [phasesPass,
   externalPass ((Adapter.known c.externalTools).map fun a => a.tool programs formats),
   dependenciesPass,
   cloudPass answer]

/-- A scanner with the passes that run unless others are asked for. -/
def standard (m : Machine) (c : Config) (programs : Programs) (formats : Formats)
    (answer : Request → Reply) (now : Int) : Scanner :=
  { machine := m
    config := c
    formats
    passes := standardPasses c programs formats answer
    setup := Adapter.warnings c.externalTools
    now }

/-! ## One scan -/

/-- The ignore rules of the settings; those of the tree itself never count. -/
def ignoreRules (s : Scanner) : IgnoreRules :=
  if s.config.ignoreFile.isEmpty then []
  else
    match s.machine.files.readUpTo? IgnoreRules.maxFileSize s.config.ignoreFile with
    | some text => IgnoreRules.parse text
    | none => []

def input (s : Scanner) (root : Text) (entries : List FileEntry) (fingerprint : Text) : ScanInput :=
  { machine := s.machine
    config := s.config
    formats := s.formats
    root, entries, fingerprint
    now := s.now }

/-- The events before the passes: what could not be listed, and the fingerprint. -/
def firstEvents (notes : List Text) (fingerprint : Except FingerprintError Text) :
    List ReportEvent :=
  notes.map (.note "walker".ascii) ++
  [match fingerprint with
   | .ok value => .fingerprint value
   | .error e => .note "fingerprint".ascii e.message]

def scoreMessage (r : Report) : LogMessage :=
  .info ("scan ".ascii ++ r.item ++ ": score ".ascii ++ Text.ofInt r.score ++ " verdict ".ascii ++
    r.verdict.name)

def scan (s : Scanner) (t : ScanTarget) : List LogMessage × Except ScanError Report :=
  let fs := s.machine.files
  if !fs.isDirectory t.path then ([], .error (.notDirectory t.path))
  else
    let walk := WalkResult.ofTree fs s.ignoreRules t.path
    let fingerprint := Fingerprint.ofTree fs t.path
    let input := s.input t.path walk.files (fingerprint.toOption.getD [])
    let steps := Pass.allSteps s.passes input
    let draft := (Draft.empty.applyAll (firstEvents walk.notes fingerprint)).applyAll
      (PassStep.events steps)
    let log := s.setup ++ PassStep.messages steps
    match draft.finalize t.item t.path s.now with
    | .error e => (log, .error (.score e))
    | .ok report => (log ++ [scoreMessage report], .ok report)

/-! ## Several targets -/

/-- The message about a target whose scan, or the keeping of whose report, failed. -/
def failureMessage (t : ScanTarget) (e : ScanError) : LogMessage :=
  .error ("scan of ".ascii ++ t.path ++ " failed: ".ascii ++ e.message)

/-- Keeps the report of a scan, if the settings say so. A report that cannot be kept is not lost. -/
def conclude (s : Scanner) (fs : FileSystem) (t : ScanTarget) :
    Except ScanError Report → FileSystem × List LogMessage × ScanOutcome
  | .error e => (fs, [failureMessage t e], ⟨t, none, [], some e⟩)
  | .ok report =>
    if !s.config.persistReports then (fs, [], ⟨t, some report, [], none⟩)
    else
      let (fs, saved) := report.save s.formats fs s.config.reportDir
      match saved.path with
      | .ok path => (fs, saved.log, ⟨t, some report, path, none⟩)
      | .error e =>
        (fs, saved.log ++ [failureMessage t (.storage e)],
         ⟨t, some report, [], some (.storage e)⟩)

/-- Scans a target and keeps its report. -/
def run (s : Scanner) (t : ScanTarget) : FileSystem × List LogMessage × ScanOutcome :=
  let (log, result) := s.scan t
  let (fs, more, outcome) := s.conclude s.machine.files t result
  (fs, log ++ more, outcome)

/-- The same scanner on other files. -/
def onFiles (s : Scanner) (fs : FileSystem) : Scanner :=
  { s with machine := { s.machine with files := fs } }

def runMany (s : Scanner) : List ScanTarget → FileSystem × List LogMessage × List ScanOutcome
  | [] => (s.machine.files, [], [])
  | t :: rest =>
    let (fs, log, outcome) := s.run t
    let (fs, more, outcomes) := (s.onFiles fs).runMany rest
    (fs, log ++ more, outcome :: outcomes)

end Scanner

/-! ## Choosing a target -/

inductive TargetError where
  | unknown (word : Text)
  | quarantine (cause : QuarantineError)
  deriving DecidableEq, Repr

def TargetError.message : TargetError → Text
  | unknown word => "'".ascii ++ word ++ "' is neither a directory nor a quarantine id".ascii
  | quarantine cause => cause.message

/-- The target that a word names: a directory, or the content of an item. -/
def ScanTarget.ofWord (q : Quarantine) (fs : FileSystem) (word : Text) :
    Except TargetError ScanTarget :=
  if fs.isDirectory word then .ok ⟨word, ItemId.ofPath fs word⟩
  else if ItemId.isValid word then
    match q.find? fs word with
    | .error e => .error (.quarantine e)
    | .ok (some item) => .ok ⟨Path.join item.path "content".ascii, word⟩
    | .ok none => .error (.unknown word)
  else .error (.unknown word)

/-! ## The exit status -/

/-- The higher one of two verdicts. -/
def Verdict.worse (a b : Verdict) : Verdict := if a.rank < b.rank then b else a

/-- The highest verdict of the reports. -/
def ScanOutcome.worst (outcomes : List ScanOutcome) : Verdict :=
  (outcomes.filterMap fun o => o.report.map Report.verdict).foldl Verdict.worse .clean

def ScanOutcome.exitCode (outcomes : List ScanOutcome) : Nat :=
  if outcomes.any fun o => o.report.isNone then failureExitCode
  else (ScanOutcome.worst outcomes).exitCode

end Triage
