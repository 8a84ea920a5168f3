import Triage.Formats
import Triage.Log
import Triage.Tool

/-!
The tools that are known by name: how each is called and how its outcome is told.

A run whose program does not start, runs out of time, is killed, ends with an unexpected status,
writes too much or writes something else than results is degraded and gives no findings.
-/

namespace Triage

/-- Why the output of a tool cannot be used. -/
inductive ToolOutputError where
  | document (tool : Text)
  | line (tool : Text) (number : Nat)
  deriving DecidableEq, Repr

def ToolOutputError.message : ToolOutputError → Text
  | document tool => tool ++ " output is not a JSON object".ascii
  | line tool number => tool ++ " line ".ascii ++ Text.ofNat number ++ " is not JSON".ascii

/-- How a tool writes its results. -/
inductive ToolOutput where
  /-- All output is one document. -/
  | document
  /-- Every line that is not blank is a record. -/
  | lines
  deriving DecidableEq, Repr

/-- A tool that is run as a program. -/
structure Adapter where
  name : Text
  arguments : List Text
  /-- The exit statuses of a run that was completed. -/
  completed : List Nat
  output : ToolOutput
  deriving DecidableEq, Repr

namespace Adapter

def semgrep : Adapter where
  name := "semgrep".ascii
  arguments :=
    ["scan", "--json", "--quiet", "--metrics=off", "--disable-version-check", "--config", "auto",
     "."].map String.ascii
  completed := [0, 1]
  output := .document

def bandit : Adapter where
  name := "bandit".ascii
  arguments := ["-r", "-f", "json", "-q", "."].map String.ascii
  completed := [0, 1]
  output := .document

def trufflehog : Adapter where
  name := "trufflehog".ascii
  arguments := ["filesystem", "--json", "--no-update", "--fail", "."].map String.ascii
  completed := [0, 183]
  output := .lines

def all : List Adapter := [semgrep, bandit, trufflehog]

def ofName? (name : Text) : Option Adapter := all.find? fun a => a.name == name

/-! ## Output -/

def findingsInLines (formats : Formats) (tool : Text) :
    List (Text × Nat) → Except ToolOutputError (List Finding)
  | [] => .ok []
  | (text, number) :: rest => do
    let text := Text.trim text
    let here ←
      if text.isEmpty then pure []
      else
        match formats.toolFindings tool text with
        | some findings => pure findings
        | none => throw (.line tool number)
    pure (here ++ (← findingsInLines formats tool rest))

def findingsIn (a : Adapter) (formats : Formats) (output : Text) :
    Except ToolOutputError (List Finding) :=
  match a.output with
  | .document =>
    match formats.toolFindings a.name output with
    | some findings => .ok findings
    | none => .error (.document a.name)
  | .lines => findingsInLines formats a.name ((Text.pieces output).zipIdx 1)

/-! ## Running -/

/-- The outcome of a run that ended with a status. -/
def completedOutcome (a : Adapter) (formats : Formats) (status : Nat) (r : ProcessResult) :
    ToolOutcome :=
  if !a.completed.contains status then .degraded ("exit status ".ascii ++ Text.ofNat status)
  else if r.truncated then .degraded "output exceeded capture limit".ascii
  else
    match a.findingsIn formats r.output with
    | .error e => .degraded ("unparseable output: ".ascii ++ e.message)
    | .ok findings => ⟨.ran, Text.ofNat findings.length ++ " findings".ascii, findings⟩

def outcome (a : Adapter) (formats : Formats) (timeout : Int) :
    Except ProcessError ProcessResult → ToolOutcome
  | .error e => .degraded ("could not start: ".ascii ++ e.message)
  | .ok r =>
    match r.ending with
    | .timedOut => .degraded ("timed out after ".ascii ++ Text.ofInt timeout ++ "s".ascii)
    | .killed signal => .degraded ("killed by signal ".ascii ++ Text.ofNat signal)
    | .exited status => a.completedOutcome formats status r

def run (a : Adapter) (programs : Programs) (formats : Formats) (m : Machine) (root : Text)
    (timeout : Int) : ToolOutcome :=
  a.outcome formats timeout
    (Subprocess.run programs m { timeout, workingDirectory := root } (a.name :: a.arguments))

/-- The adapter as a tool on a machine with these programs. -/
def tool (a : Adapter) (programs : Programs) (formats : Formats) : Tool where
  name := a.name
  available m := (m.installed? a.name).isSome
  run := a.run programs formats

/-! ## Choosing tools -/

/-- The warning about a tool that is not known. -/
def unknownWarning (name : Text) : LogMessage :=
  .warn ("unknown external tool '".ascii ++ name ++ "' ignored".ascii)

/-- The known tools among the names, in the order of the names. -/
def known (names : List Text) : List Adapter := names.filterMap ofName?

def warnings (names : List Text) : List LogMessage :=
  (names.filter fun name => (ofName? name).isNone).map unknownWarning

end Adapter

end Triage
