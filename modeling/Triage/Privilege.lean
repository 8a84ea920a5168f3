import Triage.Log

/-!
Capabilities of the process. They can be neither dropped nor listed here.
-/

namespace Triage

namespace Privilege

/-- Whether external tools run without capabilities. -/
def canDrop : Bool := false

def listing (context : Text) : LogMessage :=
  .debug ("Capabilities logging not available (libcap not compiled in), ".ascii ++ context)

end Privilege

end Triage
