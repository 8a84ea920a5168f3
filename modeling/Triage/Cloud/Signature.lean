import Triage.Rule.Search

/-!
Signatures: detection rules that the threat intelligence service supplies.

A signature names its phase and severity as free text. It may be of the phases of built-in rules
only and weighs what its phase weighs, so that the service cannot raise a score beyond that.
-/

namespace Triage

structure Signature where
  id : Text
  pattern : Text
  phase : Text
  severity : Text
  description : Text
  deriving DecidableEq, Repr

namespace Signature

def source : Text := "cloud".ascii

/-- The phase that a signature counts for. -/
def phaseOf (name : Text) : Phase :=
  match Phase.ofName? name with
  | some .external | some .threatIntel | none => .codePatterns
  | some phase => phase

/-- The line rule of a signature whose pattern is well formed. -/
def rule? (s : Signature) : Option LineRule :=
  (Regex.ofPattern? false s.pattern).map fun regex =>
    { id := s.id
      phase := phaseOf s.phase
      severity := (Severity.ofName? s.severity).getD .low
      weight := (phaseOf s.phase).weight
      description := s.description
      scope := .any
      source
      regex }

/-- The rules of a list of signatures, and the ids of those without a rule. -/
def compile (signatures : List Signature) : List LineRule × List Text :=
  (signatures.filterMap rule?, (signatures.filter fun s => (rule? s).isNone).map Signature.id)

end Signature

end Triage
