import Triage.Failure
import Triage.Time

/-!
A session: what commands work on and what they write.

The state of the files, the log and the streams is a value; an action changes it and may fail. What
was written or changed before a failure stays.
-/

namespace Triage

structure Session where
  machine : Machine
  programs : Programs
  formats : Formats
  /-- How requests to the threat intelligence service are answered. -/
  answer : Request → Reply
  now : Int
  process : UInt32
  /-- What is left of the standard input. -/
  input : Text
  output : Text
  errors : Text
  level : LogLevel
  /-- The log file, if one is attached. -/
  logFile : Option (List Text)
  /-- The number of items that the session has begun to delete. -/
  rejections : UInt32

/-- What changes a session and may fail. -/
abbrev Action (α : Type) := ExceptT Failure (StateM Session) α

namespace Session

/-- A session that begins on a machine, without any programs, data formats or network. -/
def begin (m : Machine) (now : Int) : Session :=
  { machine := m
    programs := fun _ _ _ => .immediate Subprocess.notFoundStatus
    formats := .none
    answer := fun _ => .error ⟨"network is not available".ascii⟩
    now
    process := 1
    input := []
    output := []
    errors := []
    level := .info
    logFile := none
    rejections := 0 }

def files (s : Session) : FileSystem := s.machine.files

def withFiles (s : Session) (files : FileSystem) : Session :=
  { s with machine := { s.machine with files } }

/-! ## Streams -/

def print (text : Text) (s : Session) : Session := { s with output := s.output ++ text }

def printError (text : Text) (s : Session) : Session := { s with errors := s.errors ++ text }

/-- Reads a line of the standard input; nothing is left after the last one. -/
def readLine (s : Session) : Text × Session :=
  (Text.before Byte.lineFeed s.input, { s with input := Text.after Byte.lineFeed s.input })

/-! ## The log -/

/-- Shows a message and writes it to the log file, if it is important enough. -/
def log (m : LogMessage) (s : Session) : Session :=
  if !m.shownAt s.level then s
  else
    let s := s.printError m.line
    match s.logFile with
    | none => s
    | some file => s.withFiles (s.files.append file (m.stampedLine (Time.iso s.now)))

def logAll (messages : List LogMessage) (s : Session) : Session :=
  messages.foldl (fun s m => s.log m) s

/-- Attaches a log file in place of any other, and tells whether it could be opened. -/
def attachLog (path : Text) (s : Session) : Bool × Session :=
  match s.files.openForAppend path with
  | .ok (files, file) => (true, { s.withFiles files with logFile := some file })
  | .error _ => (false, { s with logFile := none })

def detachLog (s : Session) : Session := { s with logFile := none }

/-- Sets the level of a name; an unknown name changes nothing. -/
def setLevel (name : Text) (s : Session) : Session :=
  { s with level := (LogLevel.ofName? name).getD s.level }

end Session

namespace Action

/-- The outcome of a computation as an action. -/
def ofExcept {α ε : Type} (meaning : ε → Failure) : Except ε α → Action α
  | .ok value => pure value
  | .error e => throw (meaning e)

def print (text : Text) : Action Unit := modify (Session.print text)
def printError (text : Text) : Action Unit := modify (Session.printError text)
def log (m : LogMessage) : Action Unit := modify (Session.log m)

def files : Action FileSystem := return (← get).files

def setFiles (files : FileSystem) : Action Unit := modify fun s => s.withFiles files

/-! ## Quarantine -/

/-- Runs a quarantine operation on the files. -/
def attempt {α : Type} (operation : Quarantine.Attempt α) : Action α := do
  let (files, outcome) := Procedure.run (← files) operation.run
  setFiles files
  ofExcept .quarantine outcome

def approve (q : Quarantine) (id : Text) : Action Unit := do
  attempt (q.approve id)
  log (.info ("approved ".ascii ++ id))

/-- The mark of a rejection. -/
def nextMark : Action Text := do
  let s ← get
  set { s with rejections := s.rejections + 1 }
  pure (Quarantine.mark s.process s.rejections)

def reject (q : Quarantine) (id : Text) : Action Unit := do
  let source ← attempt (q.toReject id)
  attempt (q.discard (← nextMark) id source)
  log (.info ("rejected ".ascii ++ id))

def create (q : Quarantine) (descriptor path : Text) : Action Text := do
  let id ← attempt (q.create (← get).now descriptor path)
  log (.info ("quarantined ".ascii ++ descriptor ++ " as ".ascii ++ id))
  pure id

end Action

end Triage
