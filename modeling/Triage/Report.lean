import Triage.Score

/-!
Reports: the outcome of one scan of one target.

A report lists the findings in their order, the components that took part with what became of
them, and the notes on what could not be looked at. Score, verdict and counts are derived from the
findings.
-/

namespace Triage

inductive ComponentState where
  | ran | skipped | notInstalled | degraded
  deriving DecidableEq, Repr

namespace ComponentState

def all : List ComponentState := [ran, skipped, notInstalled, degraded]

def name : ComponentState → Text
  | ran => "ran".ascii
  | skipped => "skipped".ascii
  | notInstalled => "not_installed".ascii
  | degraded => "degraded".ascii

/-- The state of that name; case and surrounding blanks do not count. -/
def ofName? (s : Text) : Option ComponentState :=
  all.find? fun state => state.name == Text.toLower (Text.trim s)

end ComponentState

/-- A pass or an external tool as a report shows it. -/
structure Component where
  name : Text
  state : ComponentState
  /-- The reason for a state other than `ran`, or what was done. -/
  detail : Text
  /-- The number of findings that it contributed. -/
  findings : Nat
  started : Int
  ended : Int
  deriving DecidableEq, Repr

/-- A component of which only the name is known. -/
def Component.named (name : Text) : Component := ⟨name, .ran, [], 0, 0, 0⟩

/-- A remark on something that was not scanned. -/
structure Note where
  component : Text
  message : Text
  deriving DecidableEq, Repr

namespace Note

/-- Whether `a` comes strictly before `b`: by component, then by message. -/
def precedes (a b : Note) : Bool :=
  a.component < b.component || (a.component == b.component && a.message < b.message)

end Note

structure Report where
  /-- The id of the quarantined item, or one made from the path. -/
  item : Text
  target : Text
  /-- The number of findings of each phase, in the order of the phases. -/
  counts : List Nat
  score : Int
  verdict : Verdict
  components : List Component
  notes : List Note
  findings : List Finding
  filesScanned : UInt64
  fingerprint : Text
  generatedAt : Int
  tableVersion : Int
  deriving DecidableEq, Repr

end Triage
