import Triage.Finding

/-!
The score of a scan is the sum of the weights of its findings; the verdict grades the score, and
the exit status of the program follows the verdict.
-/

namespace Triage

inductive Verdict where
  | clean | low | medium | high | critical
  deriving DecidableEq, Repr

namespace Verdict

def all : List Verdict := [clean, low, medium, high, critical]

def rank : Verdict → Nat
  | clean => 0
  | low => 1
  | medium => 2
  | high => 3
  | critical => 4

def name : Verdict → Text
  | clean => "CLEAN".ascii
  | low => "LOW".ascii
  | medium => "MEDIUM".ascii
  | high => "HIGH".ascii
  | critical => "CRITICAL".ascii

/-- The verdict of that name; the three middle ones may be followed by `risk`. Case and surrounding
blanks do not count. -/
def ofName? (s : Text) : Option Verdict :=
  let s := Text.toLower (Text.trim s)
  all.find? fun v =>
    Text.toLower v.name == s ||
      ([low, medium, high].contains v && Text.toLower v.name ++ " risk".ascii == s)

/-- The exit status of a completed scan. The critical one is also that of a failure. -/
def exitCode : Verdict → Nat
  | clean => 0
  | critical => 1
  | high => 2
  | medium => 3
  | low => 4

def ofScore (score : Nat) : Verdict :=
  if score = 0 then clean
  else if score < 10 then low
  else if score < 25 then medium
  else if score < 50 then high
  else critical

end Verdict

def failureExitCode : Nat := 1

/-- Why findings have no score, or why a recorded score and verdict do not fit them. -/
inductive ScoreError where
  | negativeWeight (rule file : Text)
  | overflow
  | negativeScore (score : Int)
  | scoreMismatch (recorded sum : Int)
  | verdictMismatch (recorded : Verdict) (score : Int) (expected : Verdict)
  deriving DecidableEq, Repr

def ScoreError.message : ScoreError → Text
  | negativeWeight rule file =>
    "negative weight on finding ".ascii ++ rule ++ " in ".ascii ++ file
  | overflow => "score overflow".ascii
  | negativeScore score => "negative score ".ascii ++ Text.ofInt score
  | scoreMismatch recorded sum =>
    "recorded score ".ascii ++ Text.ofInt recorded ++ " != sum of finding weights ".ascii ++
      Text.ofInt sum
  | verdictMismatch recorded score expected =>
    "recorded verdict ".ascii ++ recorded.name ++ " does not match score ".ascii ++
      Text.ofInt score ++ " (expected ".ascii ++ expected.name ++ ")".ascii

namespace Score

def max : Int := Int32.maxValue.toInt

/-- Adds the weights to `total`, stopping at the first that is negative or leads too far. -/
def addWeights : Int → List Finding → Except ScoreError Int
  | total, [] => .ok total
  | total, f :: rest =>
    if f.weight < 0 then .error (.negativeWeight f.rule f.file)
    else if total + f.weight > max then .error .overflow
    else addWeights (total + f.weight) rest

def compute (findings : List Finding) : Except ScoreError Int := addWeights 0 findings

/-- The verdict on a score that may be negative. -/
def verdict (score : Int) : Except ScoreError Verdict :=
  if score < 0 then .error (.negativeScore score) else .ok (Verdict.ofScore score.toNat)

/-- The number of findings of each phase, in the order of the phases. -/
def countByPhase (findings : List Finding) : List Nat :=
  Phase.all.map fun phase => findings.countP fun f => f.phase == phase

def verify (recorded : Int) (recordedVerdict : Verdict) (findings : List Finding) :
    Except ScoreError Unit := do
  let sum ← compute findings
  if sum ≠ recorded then throw (.scoreMismatch recorded sum)
  let expected ← verdict recorded
  if expected ≠ recordedVerdict then throw (.verdictMismatch recordedVerdict recorded expected)

end Score

end Triage
