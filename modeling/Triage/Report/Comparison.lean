import Triage.Report
import Triage.Report.Rendering

/-!
Comparing two reports on the same target.

Findings with the same rule, file and line are paired off, each with at most one. The findings of
the current report that are left over are new, those of the baseline are resolved. Of several
findings with the same key the first ones of the current report and the last ones of the baseline
are paired.
-/

namespace Triage

/-- What two findings must have in common to be taken for the same. -/
structure FindingKey where
  rule : Text
  file : Text
  line : Int
  deriving DecidableEq, Repr

def Finding.key (f : Finding) : FindingKey := ⟨f.rule, f.file, Finding.lineRank f.line⟩

structure Comparison where
  added : List Finding
  resolved : List Finding
  unchanged : List Finding
  baselineScore : Int
  currentScore : Int
  deriving DecidableEq, Repr

namespace Comparison

/-- Pairs findings off with keys, each key being used once: the findings that found their key, and
those that did not. -/
def pairOff (keys : List FindingKey) : List Finding → List Finding × List Finding
  | [] => ([], [])
  | f :: rest =>
    if keys.contains f.key then
      let (paired, left) := pairOff (keys.erase f.key) rest
      (f :: paired, left)
    else
      let (paired, left) := pairOff keys rest
      (paired, f :: left)

def ofReports (baseline current : Report) : Comparison :=
  let (unchanged, added) := pairOff (baseline.findings.map Finding.key) current.findings
  let (_, resolved) := pairOff (current.findings.map Finding.key) baseline.findings.reverse
  { added := Finding.sort added
    resolved := Finding.sort resolved.reverse
    unchanged := Finding.sort unchanged
    baselineScore := baseline.score
    currentScore := current.score }

def delta (c : Comparison) : Int := c.currentScore - c.baselineScore

def hasNew (c : Comparison) : Bool := !c.added.isEmpty

def newFindingsExitCode : Nat := 2

def findingLine (mark : Char) (f : Finding) : Text :=
  Report.line ("  ".ascii ++ [mark.ascii] ++ " ".ascii ++ f.rule ++ "  ".ascii ++ Report.place f ++
    "  (+".ascii ++ Text.ofInt f.weight ++ ")".ascii)

def text (c : Comparison) : Text :=
  Report.line ("New findings: ".ascii ++ Text.ofNat c.added.length) ++
  c.added.flatMap (findingLine '+') ++
  Report.line ("Resolved findings: ".ascii ++ Text.ofNat c.resolved.length) ++
  c.resolved.flatMap (findingLine '-') ++
  Report.line ("Unchanged findings: ".ascii ++ Text.ofNat c.unchanged.length) ++
  Report.line ("Score: ".ascii ++ Text.ofInt c.baselineScore ++ " -> ".ascii ++
    Text.ofInt c.currentScore ++ " (".ascii ++ (if 0 ≤ c.delta then "+".ascii else []) ++
    Text.ofInt c.delta ++ ")".ascii)

end Comparison

end Triage
