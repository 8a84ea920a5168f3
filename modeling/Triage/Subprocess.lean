import Triage.Machine

/-!
Running a program and capturing what it writes.

The output arrives in chunks of any size. A loop reads them, keeps the output up to a limit and
reads on beyond it, so that the program is never blocked; what is kept does not depend on the
chunks. A program that has not ended in time is killed.
-/

namespace Triage

/-! ## Captured output -/

/-- What has been read of an output. -/
structure CapturedOutput where
  output : Text
  /-- Something was written beyond the limit. -/
  truncated : Bool
  deriving DecidableEq, Repr

/-- What a turn of the capturing loop meets. -/
inductive CaptureTurn where
  /-- The time is up. -/
  | late
  /-- Nothing was written yet, or waiting for it was interrupted. -/
  | idle
  /-- The output cannot be read. -/
  | unreadable
  /-- So much was read at once. -/
  | chunk (bytes : Text)
  | endOfFile
  deriving DecidableEq, Repr

/-- Why the capturing loop ends. -/
inductive CaptureEnd where
  | late | unreadable | endOfFile
  deriving DecidableEq, Repr

namespace CapturedOutput

def empty : CapturedOutput := ⟨[], false⟩

/-- How much of an output is still kept when so many bytes of it are; nothing beyond the limit. -/
def room (limit kept : Nat) : Nat := if kept < limit then limit - kept else 0

/-- Reads a chunk and keeps what fits. -/
def add (limit : Nat) (c : CapturedOutput) (chunk : Text) : CapturedOutput :=
  let taken := min chunk.length (room limit c.output.length)
  ⟨c.output ++ chunk.take taken, c.truncated || taken < chunk.length⟩

/-- The capturing loop: what was read in the turns up to its end, if it ends in one of them. -/
def capture (limit : Nat) (c : CapturedOutput) :
    List CaptureTurn → CapturedOutput × Option CaptureEnd
  | [] => (c, none)
  | .late :: _ => (c, some .late)
  | .idle :: rest => c.capture limit rest
  | .unreadable :: _ => (c, some .unreadable)
  | .chunk bytes :: rest => (c.add limit bytes).capture limit rest
  | .endOfFile :: _ => (c, some .endOfFile)

/-- The most that is read at once. -/
def bufferSize : Nat := 8192

/-- What was written at once, cut into chunks that can be read. -/
def chunks : Text → List Text
  | [] => []
  | b :: rest => (b :: rest.take (bufferSize - 1)) :: chunks (rest.drop (bufferSize - 1))
termination_by written => written.length
decreasing_by simp only [List.length_drop, List.length_cons]; omega

end CapturedOutput

/-! ## Programs -/

/-- How a program ends by itself. -/
inductive ProgramEnd where
  | exited (status : Nat)
  | killed (signal : Nat)
  deriving DecidableEq, Repr

/-- What a program does: the chunks that it writes with the second in which it writes them, and
when and how it ends. -/
structure Execution where
  writes : List (Nat × Text)
  seconds : Nat
  ending : ProgramEnd
  deriving DecidableEq, Repr

/-- The execution of a program that ends at once and writes nothing. -/
def Execution.immediate (status : Nat) : Execution := ⟨[], 0, .exited status⟩

/-- What an executable file does, given the machine with its working directory, the path of the
file, and the arguments. -/
abbrev Programs := Machine → Text → List Text → Execution

/-! ## Processes -/

structure ProcessOptions where
  /-- The seconds after which a program is killed. -/
  timeout : Int := 120
  /-- The directory in which the program runs; the current one if empty. -/
  workingDirectory : Text := []
  /-- How much of the output is kept. -/
  maxOutput : Nat := 64 * 1024 * 1024
  deriving DecidableEq, Repr

inductive ProcessEnd where
  | exited (status : Nat)
  | killed (signal : Nat)
  | timedOut
  deriving DecidableEq, Repr

structure ProcessResult where
  ending : ProcessEnd
  output : Text
  truncated : Bool
  deriving DecidableEq, Repr

/-- Why no process can be started, or why it is not known how it ended. What the system refuses, it
gives a reason for. -/
inductive ProcessError where
  | noProgram
  | pipe (reason : Text)
  | fork (reason : Text)
  | wait (reason : Text)
  deriving DecidableEq, Repr

def ProcessError.message : ProcessError → Text
  | noProgram => "run_process: empty argv".ascii
  | pipe reason => "pipe failed: ".ascii ++ reason
  | fork reason => "fork failed: ".ascii ++ reason
  | wait reason => "waitpid failed: ".ascii ++ reason

namespace Subprocess

/-- The exit status of a program that is not found or whose working directory cannot be entered. -/
def notFoundStatus : Nat := 127

/-- The machine as the program sees it. -/
def machineFor (m : Machine) (options : ProcessOptions) : Option Machine :=
  if options.workingDirectory.isEmpty then some m else m.enter? options.workingDirectory

def execute (programs : Programs) (m : Machine) (options : ProcessOptions) (name : Text)
    (arguments : List Text) : Execution :=
  match machineFor m options with
  | none => .immediate notFoundStatus
  | some m =>
    match m.started? name with
    | none => .immediate notFoundStatus
    | some path => programs m path arguments

/-- What a program writes before the timeout. -/
def written (options : ProcessOptions) (e : Execution) : List Text :=
  (e.writes.filter fun (second, _) => second < options.timeout).map Prod.snd

/-- The turns in which an execution is captured. -/
def turns (options : ProcessOptions) (e : Execution) : List CaptureTurn :=
  ((written options e).flatMap CapturedOutput.chunks).map .chunk ++
    [if options.timeout ≤ e.seconds then .late else .endOfFile]

/-- Captures an execution up to the timeout. -/
def observe (options : ProcessOptions) (e : Execution) : ProcessResult :=
  let (captured, stop) := CapturedOutput.empty.capture options.maxOutput (turns options e)
  let ending :=
    if stop = some .late then .timedOut
    else match e.ending with
      | .exited status => .exited status
      | .killed signal => .killed signal
  ⟨ending, captured.output, captured.truncated⟩

/-- Runs the program named by the first word with the other words as its arguments. A word ends at
its first zero byte. -/
def run (programs : Programs) (m : Machine) (options : ProcessOptions) (words : List Text) :
    Except ProcessError ProcessResult :=
  match words.map (Text.before 0) with
  | [] => .error .noProgram
  | name :: arguments => .ok (observe options (execute programs m options name arguments))

end Subprocess

end Triage
