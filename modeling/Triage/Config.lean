import Triage.Phase
import Triage.Severity

/-!
The settings of a run.
-/

namespace Triage

structure Config where
  homeDir : Text := []
  quarantineDir : Text := []
  approvedDir : Text := []
  logDir : Text := []
  reportDir : Text := []
  configFile : Text := []
  tokenFile : Text := []
  cacheDir : Text := []
  /-- The address of the threat intelligence service. -/
  apiEndpoint : Text := "https://api.sigilsec.ai".ascii
  httpTimeout : Int := 15
  /-- The service is never contacted. -/
  offline : Bool := false
  /-- The only passes to run, if there are any. -/
  enabled : List Text := []
  disabled : List Text := []
  externalTools : List Text := ["semgrep".ascii, "bandit".ascii, "trufflehog".ascii]
  scannerTimeout : Int := 120
  /-- The phases whose rules apply; none stands for all. -/
  phases : List Phase := []
  /-- The ignore file, which is never read from the scanned tree. -/
  ignoreFile : Text := []
  maxFileBytes : Nat := 10 * 1024 * 1024
  parallel : Bool := true
  /-- The number of workers for several targets; zero stands for one for each processor. -/
  parallelThreads : Int := 0
  format : Text := "text".ascii
  /-- The least severity that the text form lists. -/
  minSeverity : Text := []
  persistReports : Bool := true
  logLevel : Text := "info".ascii
  deriving DecidableEq, Repr

namespace Config

def default : Config := {}

/-- The least severity that the text form lists, if one is set. -/
def leastSeverity (c : Config) : Option Severity := Severity.ofName? c.minSeverity

/-- Whether a pass runs: it is named, or none is, and it is not ruled out. -/
def runs (c : Config) (pass : Text) : Bool :=
  (c.enabled.isEmpty || c.enabled.contains pass) && !c.disabled.contains pass

end Config

end Triage
