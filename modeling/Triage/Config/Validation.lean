import Triage.Config
import Triage.Log
import Triage.Source

/-!
Checking the settings and bringing them into normal form.

A problem is reported in the log and ends the program; an ill-formed name or address is an error.
What was brought into normal form before that stays so.
-/

namespace Triage

/-- A setting with which the program does not start. -/
inductive ConfigProblem where
  | httpTimeout
  | scannerTimeout
  | parallelThreads
  | maxFileBytes
  | format (value : Text)
  | severity (value : Text)
  | logLevel (value : Text)
  /-- The pass is both enabled and disabled. -/
  | conflict (pass : Text)
  deriving DecidableEq, Repr

def ConfigProblem.message : ConfigProblem → Text
  | httpTimeout => "http_timeout_seconds must be positive".ascii
  | scannerTimeout => "scanner_timeout_seconds must be positive".ascii
  | parallelThreads => "parallel_threads cannot be negative".ascii
  | maxFileBytes => "max_file_bytes must be positive".ascii
  | format value =>
    "Invalid --format value: ".ascii ++ value ++ " (expected text, json or sarif)".ascii
  | severity value => "Invalid --min-severity value: ".ascii ++ value
  | logLevel value => "Invalid log_level value: ".ascii ++ value
  | conflict pass => "Cannot enable and disable the same scanner: ".ascii ++ pass

/-- An ill-formed setting. -/
inductive ConfigError where
  | endpoint (cause : SourceError)
  | passTooLong (pass : Text)
  | passByte (pass : Text)
  | toolByte (tool : Text)
  deriving DecidableEq, Repr

def ConfigError.message : ConfigError → Text
  | endpoint cause => cause.message
  | passTooLong pass => "Scanner name too long: ".ascii ++ pass
  | passByte pass => "Scanner name contains invalid character: ".ascii ++ pass
  | toolByte tool => "External tool name contains invalid character: ".ascii ++ tool

namespace Config

/-! ## The single checks -/

def formats : List Text := ["text".ascii, "json".ascii, "sarif".ascii]

/-- The names that a log level may have in the settings. -/
def logLevelNames : List Text :=
  ["error".ascii, "warn".ascii, "info".ascii, "debug".ascii, "trace".ascii]

def acceptsSeverity (s : Text) : Bool :=
  (Text.trim s).isEmpty || (Severity.ofName? (Text.trim s)).isSome

def acceptsLogLevel (s : Text) : Bool := logLevelNames.contains (Text.toLower (Text.trim s))

def numberProblem? (c : Config) : Option ConfigProblem :=
  if c.httpTimeout ≤ 0 then some .httpTimeout
  else if c.scannerTimeout ≤ 0 then some .scannerTimeout
  else if c.parallelThreads < 0 then some .parallelThreads
  else if c.maxFileBytes = 0 then some .maxFileBytes
  else none

/-- The first problem with a value that must be one of a few. -/
def choiceProblem? (c : Config) : Option ConfigProblem :=
  if !formats.contains c.format then some (.format c.format)
  else if !acceptsSeverity c.minSeverity then some (.severity c.minSeverity)
  else if !acceptsLogLevel c.logLevel then some (.logLevel c.logLevel)
  else none

def checkEndpoint (c : Config) : Except ConfigError Unit :=
  if c.apiEndpoint.isEmpty then .ok ()
  else
    match Source.checkUrl c.apiEndpoint with
    | .ok () => .ok ()
    | .error e => .error (.endpoint e)

/-- A text without the slashes at its end. -/
def withoutSlashes (s : Text) : Text := (s.reverse.dropWhile (· == Byte.slash)).reverse

/-- A printable ASCII character or a space. -/
def isPrintable (b : UInt8) : Bool := 32 ≤ b && b ≤ 126

def maxPassName : Nat := 256

/-- The first problem or error in a list of enabled passes; empty names are passed over. -/
def checkEnabled (disabled : List Text) : List Text → Except ConfigError (Option ConfigProblem)
  | [] => .ok none
  | pass :: rest =>
    if pass.isEmpty then checkEnabled disabled rest
    else if disabled.contains pass then .ok (some (.conflict pass))
    else if maxPassName < pass.length then .error (.passTooLong pass)
    else if !pass.all isPrintable then .error (.passByte pass)
    else checkEnabled disabled rest

def isToolByte (b : UInt8) : Bool :=
  Byte.isLetterOrDigit b || b == '-'.ascii || b == '_'.ascii

/-- The first problem or error in the names of passes and tools. -/
def checkNames (c : Config) : Except ConfigError (Option ConfigProblem) := do
  match ← checkEnabled c.disabled c.enabled with
  | some problem => pure (some problem)
  | none =>
    match c.externalTools.find? fun tool => !tool.all isToolByte with
    | some tool => throw (.toolByte tool)
    | none => pure none

/-! ## All checks -/

/-- The settings in normal form as far as they were checked, and what the checks found: an error, a
problem, or nothing. -/
def validate (c : Config) : Config × Except ConfigError (Option ConfigProblem) :=
  match c.numberProblem? with
  | some problem => (c, .ok (some problem))
  | none =>
    let c := { c with format := Text.toLower (Text.trim c.format) }
    match c.choiceProblem? with
    | some problem => (c, .ok (some problem))
    | none =>
      match c.checkEndpoint with
      | .error e => (c, .error e)
      | .ok () =>
        let c := { c with apiEndpoint := withoutSlashes c.apiEndpoint }
        match c.checkNames with
        | .ok none => ({ c with phases := c.phases.eraseDups }, .ok none)
        | outcome => (c, outcome)

end Config

end Triage
