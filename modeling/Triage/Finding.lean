import Triage.Severity
import Triage.Phase

/-!
Findings: what a pass reports about one file or line, and the order in which reports list them.
-/

namespace Triage

structure Finding where
  phase : Phase
  /-- The rule that found it, such as `CODE-001`, or the check of an external tool. -/
  rule : Text
  /-- Who found it: the built-in rules, an external tool, or the cloud. -/
  source : Text
  severity : Severity
  /-- The path below the scanned root; `.` for the whole tree. -/
  file : Text
  /-- The line, counted from one; absent for a finding about the whole file. -/
  line : Option Nat
  snippet : Text
  weight : Int
  deriving DecidableEq, Repr

/-- The name under which the built-in rules report. -/
def builtinSource : Text := "sigil".ascii

/-- What a finding of an external tool or of the cloud weighs. -/
def sourceWeight (source : Text) : Nat :=
  if source == "semgrep".ascii || source == "bandit".ascii then 2
  else if source == "trufflehog".ascii then 5
  else if source == "cloud".ascii then 25
  else 1

namespace Finding

/-- The place of a line in the order of findings: no line comes before all lines, and line numbers
are read as signed 64-bit words. -/
def lineRank : Option Nat → Int
  | none => -1
  | some n => Int.bmod n UInt64.size

def sortKey (f : Finding) : Text × Int × Text × Text := (f.file, lineRank f.line, f.rule, f.source)

/-- Whether `a` comes strictly before `b`: by file, then line, then rule, then source. -/
def precedes (a b : Finding) : Bool :=
  a.file < b.file ||
    (a.file == b.file &&
      (lineRank a.line < lineRank b.line ||
        (lineRank a.line == lineRank b.line &&
          (a.rule < b.rule || (a.rule == b.rule && a.source < b.source)))))

/-- The findings in the order of reports; findings that tie keep their order. -/
def sort (findings : List Finding) : List Finding := findings.mergeSort fun a b => !b.precedes a

end Finding

end Triage
