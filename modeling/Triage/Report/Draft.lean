import Triage.Report
import Triage.Rule.Table

/-!
Reports in the making.

The passes of a scan send events to a common draft. A draft only grows: an event adds findings and
notes at the end, and changes the entry of one component. Finishing a draft sorts what was
collected, so that the report does not depend on which pass came first.
-/

namespace Triage

/-- One thing that a pass tells the draft of a report. -/
inductive ReportEvent where
  | started (component : Text) (time : Int)
  | ended (component : Text) (time : Int)
  | found (component : Text) (findings : List Finding)
  /-- Replaces the state and the detail of a component. -/
  | status (component : Text) (state : ComponentState) (detail : Text)
  | note (component message : Text)
  | scanned (files : UInt64)
  | fingerprint (value : Text)
  deriving DecidableEq, Repr

/-- What the passes have reported so far. -/
structure Draft where
  findings : List Finding
  components : List Component
  notes : List Note
  filesScanned : UInt64
  fingerprint : Text
  deriving DecidableEq, Repr

namespace Draft

def empty : Draft := ⟨[], [], [], 0, []⟩

/-- The components with that of a name changed; it is added at the end if there is none. -/
def change (name : Text) (f : Component → Component) : List Component → List Component
  | [] => [f (Component.named name)]
  | c :: rest => if c.name == name then f c :: rest else c :: change name f rest

def withComponent (d : Draft) (name : Text) (f : Component → Component) : Draft :=
  { d with components := change name f d.components }

def apply (d : Draft) : ReportEvent → Draft
  | .started component time => d.withComponent component fun c => { c with started := time }
  | .ended component time => d.withComponent component fun c => { c with ended := time }
  | .found component findings =>
    { d.withComponent component fun c => { c with findings := c.findings + findings.length } with
      findings := d.findings ++ findings }
  | .status component state detail =>
    d.withComponent component fun c => { c with state, detail }
  | .note component message => { d with notes := d.notes ++ [⟨component, message⟩] }
  | .scanned files => { d with filesScanned := d.filesScanned + files }
  | .fingerprint value => { d with fingerprint := value }

def applyAll (d : Draft) (events : List ReportEvent) : Draft := events.foldl apply d

def sortComponents (components : List Component) : List Component :=
  components.mergeSort fun a b => !(b.name < a.name)

/-- The notes by component and message. -/
def sortNotes (notes : List Note) : List Note := notes.mergeSort fun a b => !b.precedes a

/-- The report on what was collected, with score and verdict checked against the findings. -/
def finalize (d : Draft) (item target : Text) (time : Int) : Except ScoreError Report := do
  let findings := Finding.sort d.findings
  let score ← Score.compute findings
  let verdict ← Score.verdict score
  Score.verify score verdict findings
  pure
    { item, target
      counts := Score.countByPhase findings
      score, verdict
      components := sortComponents d.components
      notes := sortNotes d.notes
      findings
      filesScanned := d.filesScanned
      fingerprint := d.fingerprint
      generatedAt := time
      tableVersion := RuleTable.version }

end Draft

end Triage
