import Triage.Config
import Triage.Formats
import Triage.Log
import Triage.Machine
import Triage.Report.Draft
import Triage.Walk

/-!
The passes of a scan.

A pass reads the tree and sends events to the draft of the report. What a pass does is a finite row
of steps, which may end with a failure; passes that run at the same time interleave their steps,
and none reads what another has reported.
-/

namespace Triage

/-- What a pass may read. The files of the tree are listed once for all passes. -/
structure ScanInput where
  machine : Machine
  config : Config
  formats : Formats
  root : Text
  entries : List FileEntry
  /-- The fingerprint of the tree; empty if it has none. -/
  fingerprint : Text
  now : Int

inductive PassStep where
  | report (event : ReportEvent)
  | log (message : LogMessage)
  deriving DecidableEq, Repr

namespace PassStep

def event? : PassStep → Option ReportEvent
  | report event => some event
  | log _ => none

def message? : PassStep → Option LogMessage
  | report _ => none
  | log message => some message

def events (steps : List PassStep) : List ReportEvent := steps.filterMap event?

def messages (steps : List PassStep) : List LogMessage := steps.filterMap message?

def status (component : Text) (state : ComponentState) (detail : Text) : PassStep :=
  report (.status component state detail)

def note (component message : Text) : PassStep := report (.note component message)

def found (component : Text) (findings : List Finding) : PassStep :=
  report (.found component findings)

end PassStep

/-- What a pass does, up to its failure if it fails. -/
structure PassRun where
  steps : List PassStep
  /-- Why the pass failed. -/
  failure : Option Text
  deriving DecidableEq, Repr

def PassRun.ofSteps (steps : List PassStep) : PassRun := ⟨steps, none⟩

structure Pass where
  name : Text
  description : Text
  run : ScanInput → PassRun

namespace Pass

/-- How a failure is told: its text up to the first zero byte. -/
def failureText (reason : Text) : Text := Text.before 0 reason

/-- The note on a pass that failed. -/
def failureNote (reason : Text) : Text := "pass failed: ".ascii ++ failureText reason

/-- The steps after a failure: the pass is degraded, and what it has found stays. -/
def failureSteps (name reason : Text) : List PassStep :=
  [.log (.warn ("scanner ".ascii ++ name ++ " failed: ".ascii ++ failureText reason)),
   .status name .degraded (failureText reason),
   .note name (failureNote reason)]

/-- All steps of a pass that is run, from its start to its end. -/
def steps (p : Pass) (input : ScanInput) : List PassStep :=
  let run := p.run input
  .report (.started p.name input.now) ::
    (run.steps ++ (match run.failure with
      | none => []
      | some reason => failureSteps p.name reason) ++
    [.report (.ended p.name input.now)])

/-- The steps for a pass that is not run. -/
def skipSteps (p : Pass) : List PassStep :=
  [.status p.name .skipped "disabled by configuration".ascii]

def active (c : Config) (passes : List Pass) : List Pass := passes.filter fun p => c.runs p.name

/-- The steps for the passes that the settings rule out; they come before all others. -/
def inactiveSteps (c : Config) (passes : List Pass) : List PassStep :=
  (passes.filter fun p => !c.runs p.name).flatMap skipSteps

def allSteps (passes : List Pass) (input : ScanInput) : List PassStep :=
  inactiveSteps input.config passes ++ (active input.config passes).flatMap fun p => p.steps input

end Pass

end Triage
