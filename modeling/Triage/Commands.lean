import Triage.Report.Comparison
import Triage.Session

/-!
What the commands do.
-/

namespace Triage

namespace Config

def quarantine (c : Config) : Quarantine := ⟨c.quarantineDir, c.approvedDir⟩

/-- The names of the settings that a user may change. -/
def changeable : List Text :=
  ["api_endpoint", "http_timeout_seconds", "offline", "enable_scanners", "disable_scanners",
   "external_tools", "scanner_timeout_seconds", "phases", "ignore_file", "max_file_bytes",
   "parallel", "parallel_threads", "format", "min_severity", "persist_reports",
   "log_level"].map String.ascii

end Config

namespace Commands

open Triage.Action

def line (s : Text) : Text := s ++ [Byte.lineFeed]

/-- An argument of the command, counted from zero. -/
def argument (i : Invocation) (index : Nat) : Action Text :=
  match i.args[index]? with
  | some word => pure word
  | none => throw (.noArgument index)

/-! ## Scanning -/

def scanner (c : Config) : Action Scanner := do
  let s ← get
  pure (Scanner.standard s.machine c s.programs s.formats s.answer s.now)

def showOutcome (c : Config) (o : ScanOutcome) : Action Unit := do
  match o.report with
  | none =>
    let reason := (o.error.map ScanError.message).getD []
    printError (line ("scan of ".ascii ++ o.target.path ++ " failed: ".ascii ++ reason))
  | some report =>
    print (report.render (← get).formats c.format c.leastSeverity)
    if !o.saved.isEmpty then log (.info ("report saved: ".ascii ++ o.saved))

def scanTargets (c : Config) (targets : List ScanTarget) : Action Nat := do
  let (files, messages, outcomes) := (← scanner c).runMany targets
  setFiles files
  modify (Session.logAll messages)
  outcomes.forM (showOutcome c)
  pure (ScanOutcome.exitCode outcomes)

def target (c : Config) (word : Text) : Action ScanTarget := do
  ofExcept .target (ScanTarget.ofWord c.quarantine (← files) word)

/-! ## The threat intelligence service -/

/-- Asks for a line of input. -/
def prompt (label : String) : Action Text := do
  printError label.ascii
  let (answer, s) := (← get).readLine
  set s
  pure (Text.trim answer)

/-- What is known already, or else what is answered. -/
def knownOrAsked (known : Text) (label : String) : Action Text :=
  if known.isEmpty then prompt label else pure known

/-- The e-mail address and the password of a login, from the command line or asked for. -/
def credentials (i : Invocation) : Action (Text × Text) := do
  let email ← knownOrAsked i.email "email: "
  let stored := ((← get).machine.valueOf? "SIGIL_PASSWORD".ascii).getD []
  let password ← knownOrAsked (if i.password.isEmpty then stored else i.password) "password: "
  if email.isEmpty || password.isEmpty then throw .credentialsMissing else pure (email, password)

def logout (c : Config) : Action Unit := do
  let (files, removed) ← ofExcept .token (Token.remove (← files) c.tokenFile)
  setFiles files
  print (line (if removed then "logged out".ascii else "not logged in".ascii))

def fetch (c : Config) (force : Bool) : Action Unit := do
  let s ← get
  match Token.loadValid s.files s.formats.token c.tokenFile s.now with
  | none => throw .notLoggedIn
  | some token =>
    let signatures ← ofExcept .cloud
      ((Cloud.signatures c s.formats s.files s.now token.accessToken force).answered s.answer)
    let (rules, rejected) := Signature.compile signatures
    print (line (Text.ofNat signatures.length ++ " signatures cached, ".ascii ++
      Text.ofNat rules.length ++ " usable".ascii ++
      (if rejected.isEmpty then []
       else ", ".ascii ++ Text.ofNat rejected.length ++ " with invalid patterns".ascii)))

/-! ## Comparing -/

/-- Scans a target and compares the report with an earlier one. -/
def compare (c : Config) (i : Invocation) : Action Nat := do
  let earlier ← ofExcept .storage (Report.load (← files) (← get).formats i.baseline)
  let chosen ← target c (← argument i 0)
  let (messages, outcome) := (← scanner c).scan chosen
  modify (Session.logAll messages)
  let current ← ofExcept .scan outcome
  let comparison := Comparison.ofReports earlier current
  print comparison.text
  pure (if comparison.hasNew then Comparison.newFindingsExitCode else 0)

/-! ## All commands -/

def itemLine (i : Item) : Text := line (i.id ++ "  ".ascii ++ i.status.name)

/-- Takes in a copy of a path, and scans it if asked to. -/
def add (c : Config) (i : Invocation) : Action Nat := do
  let path ← argument i 0
  let id ← create c.quarantine (if i.source.isEmpty then path else i.source) path
  print (line id)
  if !i.scanAfterAdd then pure 0
  else
    let content ← ofExcept .quarantine (c.quarantine.contentPath (← files) id)
    scanTargets c [⟨content, id⟩]

def list (c : Config) : Action Unit := do
  let items := c.quarantine.items (← files)
  print (if items.isEmpty then line "no items".ascii else items.flatMap itemLine)

/-- Moves an item, or deletes it, and says so. -/
def settle (i : Invocation) (done : String) (move : Text → Action Unit) : Action Unit := do
  let id ← argument i 0
  move id
  print (line (done.ascii ++ id))

def checkSetting (key : Text) : Action Unit :=
  if Config.changeable.contains key then pure () else throw (.unknownSetting key)

def getSetting (i : Invocation) : Action Unit := do
  checkSetting (← argument i 0)
  throw (.unavailable "config get".ascii)

/-- A setting is given by its name and its new value. -/
def setSetting (i : Invocation) : Action Unit := do
  let key ← argument i 0
  let _ ← argument i 1
  checkSetting key
  throw (.unavailable "config set".ascii)

/-- Runs a command and gives back the exit status. -/
def run (c : Config) (i : Invocation) : Action Nat :=
  match i.command with
  | .scan => do scanTargets c (← i.args.mapM (target c))
  | .add => add c i
  | .list => do
    list c
    pure 0
  | .approve => do
    settle i "approved " (approve c.quarantine)
    pure 0
  | .reject => do
    settle i "rejected " (reject c.quarantine)
    pure 0
  | .login => do
    let _ ← credentials i
    throw (.unavailable "login".ascii)
  | .logout => do
    logout c
    pure 0
  | .fetch => do
    fetch c i.force
    pure 0
  | .diff => compare c i
  | .configGet => do
    getSetting i
    pure 0
  | .configSet => do
    setSetting i
    pure 0
  | .configList => throw (.unavailable "config list".ascii)
  | .none => do
    printError Help.text
    pure failureExitCode

end Commands

namespace CommandLine

/-- Parses a command line and hands the settings and the command on; a command line that shows a
text does nothing else. -/
def interpret (run : Config → Invocation → Action Nat) (c : Config) (words : List Text) :
    Action Nat := do
  let parsed ← Action.ofExcept .usage (parse ⟨c, {}⟩ words)
  match parsed.output with
  | some text => do
    Action.print text
    pure 0
  | none => run parsed.settings.config parsed.settings.invocation

/-- Parses a command line and runs its command. -/
def execute : Config → List Text → Action Nat := interpret Commands.run

end CommandLine

end Triage
