import Triage.Report
import Triage.Time

/-!
The text form of a report.

It lists the heaviest of the findings that are at least as severe as asked for; score, verdict,
phases, components and notes are those of all findings.
-/

namespace Triage

namespace Report

def maxShown : Nat := 50

def visible (least : Option Severity) (f : Finding) : Bool :=
  match least with
  | none => true
  | some severity => severity.rank ≤ f.severity.rank

/-- Whether `a` comes strictly before `b` in the text form: by weight, then by severity. -/
def heavier (a b : Finding) : Bool :=
  b.weight < a.weight || (a.weight == b.weight && b.severity.rank < a.severity.rank)

/-- The visible findings, the heaviest first. -/
def ranked (least : Option Severity) (findings : List Finding) : List Finding :=
  (findings.filter (visible least)).mergeSort fun a b => !heavier b a

/-- The findings that the text form lists. -/
def shown (least : Option Severity) (findings : List Finding) : List Finding :=
  (ranked least findings).take maxShown

/-! ## The parts -/

def line (s : Text) : Text := s ++ [Byte.lineFeed]

def header (r : Report) : Text :=
  line "Sigil scan report".ascii ++
  line ("  Target:       ".ascii ++ r.target) ++
  line ("  Item:         ".ascii ++ r.item) ++
  (if r.fingerprint.isEmpty then [] else line ("  Fingerprint:  ".ascii ++ r.fingerprint)) ++
  line ("  Files:        ".ascii ++ Text.ofNat r.filesScanned.toNat ++ " scanned".ascii) ++
  line ("  Generated:    ".ascii ++ Time.iso r.generatedAt) ++
  line ("  Rules:        pattern table v".ascii ++ Text.ofInt r.tableVersion) ++
  line []

def phaseLine (phase : Phase) (count : Nat) : Text :=
  if count = 0 && (phase == .external || phase == .threatIntel) then []
  else line ("  ".ascii ++ Text.padRight 24 phase.title ++ Text.padLeft 5 (Text.ofNat count))

def phaseTable (r : Report) : Text :=
  line "Phases".ascii ++
  ((Phase.all.zip r.counts).flatMap fun (phase, count) => phaseLine phase count) ++
  line []

def componentLine (c : Component) : Text :=
  line ("  ".ascii ++ Text.padRight 22 c.name ++ Text.padRight 15 c.state.name ++ c.detail)

def componentTable (r : Report) : Text :=
  line "Components".ascii ++ r.components.flatMap componentLine ++ line []

/-- Where a finding is: the file, and the line if there is one. -/
def place (f : Finding) : Text :=
  match f.line with
  | some n => f.file ++ ":".ascii ++ Text.ofNat n
  | none => f.file

def findingLines (f : Finding) : Text :=
  line ("  [".ascii ++ f.severity.name.map Byte.toUpper ++ "] ".ascii ++ f.rule ++ "  ".ascii ++
    place f ++
    (if f.source == builtinSource then [] else "  (".ascii ++ f.source ++ ")".ascii)) ++
  line ("      ".ascii ++ f.snippet)

/-- The heading of the findings, with the numbers if some are left out. -/
def findingHeading (listed total : Nat) : Text :=
  line ("Findings".ascii ++
    if listed < total then
      " (showing ".ascii ++ Text.ofNat listed ++ " of ".ascii ++ Text.ofNat total ++ ")".ascii
    else [])

def findingTable (r : Report) (least : Option Severity) : Text :=
  let listed := shown least r.findings
  findingHeading listed.length r.findings.length ++
  (if listed.isEmpty then line "  none".ascii else []) ++
  listed.flatMap findingLines

def noteTable (r : Report) : Text :=
  if r.notes.isEmpty then []
  else
    line [] ++ line "Notes".ascii ++
    r.notes.flatMap fun n => line ("  ".ascii ++ n.component ++ ": ".ascii ++ n.message)

def footer (r : Report) : Text :=
  line [] ++
  line ("Risk score: ".ascii ++ Text.ofInt r.score) ++
  line ("Verdict:    ".ascii ++ r.verdict.name)

/-- The text form; findings less severe than `least` are not listed. -/
def text (r : Report) (least : Option Severity) : Text :=
  r.header ++ r.phaseTable ++ r.componentTable ++ r.findingTable least ++ r.noteTable ++ r.footer

end Report

end Triage
