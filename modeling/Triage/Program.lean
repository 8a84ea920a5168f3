import Triage.Commands
import Triage.Config.Environment
import Triage.Privilege

/-!
The program as a whole: from the words of the command line to the exit status.

The settings are checked before the command runs. Whatever makes the command fail is logged, and the
program then ends with the status of a failure.
-/

namespace Triage

namespace Program

/-- The log level that the settings name, unless the command line asks for more or fewer
messages. -/
def logLevel (c : Config) (verbosity : Int) (level : LogLevel) : LogLevel :=
  if verbosity < 0 then .error
  else if verbosity = 1 then .debug
  else if 1 < verbosity then .trace
  else (LogLevel.ofName? c.logLevel).getD level

/-- The settings in normal form; none if the program does not start with them. -/
def checked (c : Config) : Action (Option Config) := do
  let (c, outcome) := c.validate
  match ← Action.ofExcept .config outcome with
  | some problem => do
    Action.log (.error problem.message)
    pure none
  | none => pure (some c)

/-- Attaches the log file in the log directory, which is made if it is missing. -/
def attachLog (c : Config) : Action Unit := do
  let (files, made) := (← Action.files).makeDirectories c.logDir
  Action.setFiles files
  let (attached, s) := (← get).attachLog (Path.join c.logDir "sigil.log".ascii)
  if made.isOk && attached then set s
  else
    Action.log (.debug ("log file under ".ascii ++ c.logDir ++
      " unavailable, logging to stderr only".ascii))

def announce (i : Invocation) : Action Unit := do
  Action.log (.debug ("sigil ".ascii ++ i.command.name ++ ", capability drop for scanners ".ascii ++
    if Privilege.canDrop then "enabled".ascii else "unavailable".ascii))
  if (← get).level == .trace then Action.log (Privilege.listing "at startup".ascii)

/-- Checks the settings, begins the log, and runs the command. -/
def perform (c : Config) (i : Invocation) : Action Nat := do
  modify fun s => { s with level := logLevel c i.verbosity s.level }
  match ← checked c with
  | none => pure failureExitCode
  | some c => do
    attachLog c
    announce i
    Commands.run c i

/-- How a failure that ends the program is logged. -/
def failureText (f : Failure) : Text :=
  match f.kind with
  | .quarantine _ => "quarantine: ".ascii ++ f.message
  | .scoring => "scoring invariant violated: ".ascii ++ f.message
  | .validation | .network | .other => f.message

def run (words : List Text) (s : Session) : Nat × Session :=
  match (CommandLine.interpret perform (.ofMachine s.machine) words).run s with
  | (.ok status, s) => (status, s)
  | (.error failure, s) => (failureExitCode, s.log (.error (failureText failure)))

end Program

end Triage
