import Triage.Text

/-!
How serious a finding is.
-/

namespace Triage

inductive Severity where
  | low | medium | high | critical
  deriving DecidableEq, Repr

namespace Severity

def all : List Severity := [low, medium, high, critical]

def rank : Severity → Nat
  | low => 0
  | medium => 1
  | high => 2
  | critical => 3

def name : Severity → Text
  | low => "low".ascii
  | medium => "medium".ascii
  | high => "high".ascii
  | critical => "critical".ascii

/-- The severity of that name; case and surrounding blanks do not count. -/
def ofName? (s : Text) : Option Severity :=
  all.find? fun severity => severity.name == Text.toLower (Text.trim s)

end Severity

end Triage
