import Triage.Detection
import Triage.Pass

/-!
The pass that applies the built-in rules.
-/

namespace Triage

namespace PhasesPass

def name : Text := "phases".ascii

def steps (d : Detection) : List PassStep :=
  d.notes.map (.note name) ++
  [.report (.scanned d.filesScanned.toUInt64),
   .found name d.findings,
   .status name .ran (Text.ofNat d.filesScanned ++ " files, pattern table v".ascii ++
     Text.ofInt RuleTable.version)]

def run (input : ScanInput) : PassRun :=
  .ofSteps (steps (Detection.run input.machine.files input.config.phases input.config.maxFileBytes
    input.root input.entries))

end PhasesPass

def phasesPass : Pass where
  name := PhasesPass.name
  description := "Built-in pattern table over file contents and provenance metadata".ascii
  run := PhasesPass.run

end Triage
