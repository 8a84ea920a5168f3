import Triage.Config
import Triage.FileSystem.Path
import Triage.Machine

/-!
The settings that environment variables give.

Everything that the program keeps lies below one directory, and each part of it can be put somewhere
else by a variable of its own. A variable that is empty counts as not set.
-/

namespace Triage

namespace Config

def variableNames : List String :=
  ["HOME", "SIGIL_HOME", "SIGIL_QUARANTINE_DIR", "SIGIL_APPROVED_DIR", "SIGIL_LOG_DIR",
   "SIGIL_REPORT_DIR", "SIGIL_CONFIG", "SIGIL_TOKEN_FILE", "SIGIL_CACHE_DIR", "SIGIL_API_URL",
   "SIGIL_PASSWORD"]

/-- The value of a variable, or another text if the variable is empty or not set. -/
def variableOr (m : Machine) (name : String) (fallback : Text) : Text :=
  match m.valueOf? name.ascii with
  | some value => if value.isEmpty then fallback else value
  | none => fallback

/-- The directory below which the program keeps everything. -/
def homeDirectory (m : Machine) : Text :=
  variableOr m "SIGIL_HOME" (Path.join (variableOr m "HOME" Path.dot) ".sigil".ascii)

/-- The default settings with the places and the address that the variables of a machine give. -/
def ofMachine (m : Machine) : Config :=
  let home := homeDirectory m
  let place (name entry : String) : Text := variableOr m name (Path.join home entry.ascii)
  { default with
    homeDir := home
    quarantineDir := place "SIGIL_QUARANTINE_DIR" "quarantine"
    approvedDir := place "SIGIL_APPROVED_DIR" "approved"
    logDir := place "SIGIL_LOG_DIR" "logs"
    reportDir := place "SIGIL_REPORT_DIR" "reports"
    configFile := place "SIGIL_CONFIG" "config.json"
    tokenFile := place "SIGIL_TOKEN_FILE" "token.json"
    cacheDir := place "SIGIL_CACHE_DIR" "cache"
    ignoreFile := Path.join home "ignore".ascii
    apiEndpoint := variableOr m "SIGIL_API_URL" default.apiEndpoint }

def places (c : Config) : List Text :=
  [c.quarantineDir, c.approvedDir, c.logDir, c.reportDir, c.tokenFile, c.cacheDir, c.ignoreFile]

end Config

end Triage
