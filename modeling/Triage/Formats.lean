import Triage.Cloud.Signature
import Triage.Document
import Triage.Report
import Triage.Token

/-!
Structured data from outside: what the program reads and writes besides plain text.

How such data is written is left open. A `Formats` says what is read from a text, or nothing if the
text is not understood, and how a report is written.
-/

namespace Triage

/-- What the threat intelligence service knows about a fingerprint. -/
structure Threat where
  name : Text
  description : Text
  deriving DecidableEq, Repr

structure Formats where
  /-- A JSON document of which the program reads the parts itself. -/
  document : Text → Option Document
  token : Text → Option Token
  /-- The answer to a lookup, which may be that nothing is known. -/
  threat : Text → Option (Option Threat)
  signatures : Text → Option (List Signature)
  /-- Kept signatures and the time at which they were fetched. -/
  keptSignatures : Text → Option (Int × List Signature)
  /-- The findings in the output of an external tool, or in one line of it. -/
  toolFindings : Text → Text → Option (List Finding)
  report : Text → Option Report
  /-- A report in the format of a name, if it is not the text form. -/
  written : Text → Report → Option Text

/-- No structured data is understood, and reports have the text form only. -/
def Formats.none : Formats :=
  { document := fun _ => Option.none
    token := fun _ => Option.none
    threat := fun _ => Option.none
    signatures := fun _ => Option.none
    keptSignatures := fun _ => Option.none
    toolFindings := fun _ _ => Option.none
    report := fun _ => Option.none
    written := fun _ _ => Option.none }

end Triage
