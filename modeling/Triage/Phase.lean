import Triage.Text

/-!
The phases of a scan. Six are worked by the built-in rules; external tools and threat lookups have
one each.
-/

namespace Triage

inductive Phase where
  | installHooks | codePatterns | networkExfil | credentials | obfuscation | provenance | external
  | threatIntel
  deriving DecidableEq, Repr

namespace Phase

/-- The phases in the order of reports. -/
def all : List Phase :=
  [installHooks, codePatterns, networkExfil, credentials, obfuscation, provenance, external,
   threatIntel]

def key : Phase → Text
  | installHooks => "install_hooks".ascii
  | codePatterns => "code_patterns".ascii
  | networkExfil => "network_exfil".ascii
  | credentials => "credentials".ascii
  | obfuscation => "obfuscation".ascii
  | provenance => "provenance".ascii
  | external => "external".ascii
  | threatIntel => "threat_intel".ascii

def title : Phase → Text
  | installHooks => "Install Hooks".ascii
  | codePatterns => "Code Patterns".ascii
  | networkExfil => "Network/Exfil".ascii
  | credentials => "Credentials".ascii
  | obfuscation => "Obfuscation".ascii
  | provenance => "Provenance".ascii
  | external => "External Scanners".ascii
  | threatIntel => "Threat Intel".ascii

/-- A name without its dashes and underscores. -/
def squeeze (s : Text) : Text := s.filter fun b => b != 95 && b != 45

/-- The phase of that name; case, dashes, underscores and surrounding blanks do not count. -/
def ofName? (s : Text) : Option Phase :=
  all.find? fun phase => squeeze phase.key == squeeze (Text.toLower (Text.trim s))

/-- What one finding of the phase weighs, unless its rule says otherwise. -/
def weight : Phase → Nat
  | installHooks => 10
  | codePatterns => 5
  | networkExfil => 3
  | credentials => 2
  | obfuscation => 5
  | provenance => 1
  | external => 1
  | threatIntel => 25

/-- Whether a selection of phases contains the phase; the empty selection contains all. -/
def selected (selection : List Phase) (phase : Phase) : Bool :=
  selection.isEmpty || selection.contains phase

end Phase

end Triage
