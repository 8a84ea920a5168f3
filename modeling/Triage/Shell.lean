import Triage.Glob
import Triage.Shell.Reading
import Triage.Shell.Utility
import Triage.Subprocess

/-!
The shell, and with it the programs of a machine: utilities and scripts.

A script is run by evaluating its commands on a state. The number of evaluation steps is bounded;
a script that needs more counts as one that never ends.
-/

namespace Triage

namespace Shell

/-- Where what is written to a descriptor goes. -/
inductive Sink where
  | output
  | discarded
  /-- A file, given by its names from the root. -/
  | file (names : List Text)
  deriving DecidableEq, Repr

structure ShellState where
  machine : Machine
  /-- What the script is called. -/
  name : Text
  arguments : List Text
  /-- The exit status of the last command. -/
  status : Nat
  input : Text
  output : Sink
  errors : Sink
  /-- What was written with the second in which it was written, the last first. -/
  written : List (Nat × Text)
  seconds : Nat

/-- Why a shell stops. -/
inductive Stop where
  | exited (status : Nat)
  | killed (signal : Nat)
  deriving DecidableEq, Repr

/-- What changes the state of a shell and may stop it. -/
abbrev ShellM := ExceptT Stop (StateM ShellState)

/-- The most steps of an evaluation. -/
def maxSteps : Nat := 10000

/-- The number of the process that runs a script. -/
def processId : Nat := 4242

namespace ShellM

/-! ## The state -/

def setStatus (status : Nat) : ShellM Unit := modify fun s => { s with status }

def emit (sink : Sink) (text : Text) : ShellM Unit := do
  if text.isEmpty then return
  match sink with
  | .discarded => pure ()
  | .output => modify fun s => { s with written := (s.seconds, text) :: s.written }
  | .file names =>
    modify fun s =>
      { s with machine := { s.machine with files := s.machine.files.append names text } }

def valueOf (name : Text) : ShellM Text := return ((← get).machine.valueOf? name).getD []

def setVariable (name value : Text) : ShellM Unit :=
  modify fun s =>
    let others := s.machine.environment.filter fun (key, _) => key != name
    { s with machine := { s.machine with environment := (name, value) :: others } }

/-- Uses what a utility did. -/
def finish (r : UtilityResult) : ShellM Unit := do
  modify fun s =>
    { s with
      seconds := s.seconds + r.seconds
      status := r.status
      machine := { s.machine with files := r.files.getD s.machine.files } }
  emit (← get).output r.output

/-! ## Parameters and fields -/

def values (name : Text) : ShellM (List Text) := do
  let s ← get
  match name with
  | [b] =>
    if b == '@'.ascii || b == '*'.ascii then pure s.arguments
    else if b == '#'.ascii then pure [Text.ofNat s.arguments.length]
    else if b == '?'.ascii then pure [Text.ofNat s.status]
    else if b == '$'.ascii then pure [Text.ofNat processId]
    else if b == '0'.ascii then pure [s.name]
    else if Byte.isDigit b then pure (s.arguments[(b - 49).toNat]?).toList
    else pure [← valueOf name]
  | _ =>
    let fallback := Text.after ':'.ascii name
    let value ← valueOf (Text.before ':'.ascii name)
    pure [if value.isEmpty && fallback.head? == some '-'.ascii then fallback.drop 1 else value]

/-- A word after expansion, and the pattern that it is if wildcards count. -/
structure Field where
  text : Text
  pattern : Text
  isWild : Bool

/-- Fields under construction: those that are complete, and the one that goes on. -/
structure Fields where
  complete : List Field
  current : Option Field

namespace Fields

/-- Adds text to the last field. -/
def add (f : Fields) (quoted : Bool) (text : Text) : Fields :=
  let last := f.current.getD ⟨[], [], false⟩
  let isWild := !quoted && text.any fun b => "*?[".ascii.contains b
  let pattern := if quoted then text.flatMap fun b => ['\\'.ascii, b] else text
  { f with current := some ⟨last.text ++ text, last.pattern ++ pattern, last.isWild || isWild⟩ }

/-- Ends the last field. -/
def close (f : Fields) : Fields := ⟨f.complete ++ f.current.toList, none⟩

def split (f : Fields) (value : Text) : Fields :=
  value.foldl (fun f b => if Byte.isBlank b then f.close else f.add false [b]) f

/-- Adds values, each of which ends a field but the last. -/
def addEach (f : Fields) : List Text → Fields
  | [] => f
  | [value] => f.add true value
  | value :: rest => (f.add true value).close.addEach rest

def addValues (f : Fields) (name : Text) (isQuoted : Bool) (values : List Text) : Fields :=
  if !isQuoted then f.split (Text.joinWith " ".ascii values)
  else if name == "@".ascii then f.addEach values
  else f.add true (Text.joinWith " ".ascii values)

end Fields

/-- The names of files that a field stands for; the field itself if there are none. -/
def names (f : Field) : ShellM (List Text) := do
  let files := (← get).machine.files
  let entries := (files.listDirectory Path.dot).toOption.getD []
  let hidden := f.text.head? == some '.'.ascii
  let matching := (entries.map Prod.fst).filter fun name =>
    (name.head? == some '.'.ascii) == hidden && Glob.accepts true f.pattern name
  if f.isWild && !matching.isEmpty then pure (matching.mergeSort fun a b => !(b < a))
  else pure [f.text]

/-! ## Redirections -/

def openSink (appends : Bool) (path : Text) : ShellM (Option Sink) := do
  if path == "/dev/null".ascii then return some .discarded
  let s ← get
  match s.machine.files.openForAppend path with
  | .error _ => pure none
  | .ok (files, names) =>
    let emptied := files.setAt names (some (.file ⟨[], 0, false⟩))
    set { s with machine := { s.machine with files := if appends then files else emptied } }
    pure (some (.file names))

def setSink (descriptor : Nat) (sink : Sink) : ShellM Unit :=
  modify fun s =>
    if descriptor = 1 then { s with output := sink }
    else if descriptor = 2 then { s with errors := sink }
    else s

/-- Runs a command and puts input and sinks back as they were. -/
def withStreams (action : ShellM Unit) : ShellM Unit := do
  let before ← get
  action
  modify fun s => { s with input := before.input, output := before.output, errors := before.errors }

/-- Runs a command in a copy of the shell: only files, time and what is written stay. -/
def isolated (action : ShellM Unit) : ShellM Unit := fun before =>
  let (outcome, s) := action before
  let after (status : Nat) : ShellState :=
    { before with
      status
      written := s.written
      seconds := s.seconds
      machine := { before.machine with
        files := { s.machine.files with
          workingDirectory := before.machine.files.workingDirectory } } }
  match outcome with
  | .ok () => (.ok (), after s.status)
  | .error (.exited status) => (.ok (), after status)
  | .error (.killed signal) => (.error (.killed signal), after s.status)

/-- Runs a command in a copy of the shell and gives back what it writes. -/
def captured (action : ShellM Unit) : ShellM Text := do
  let before ← get
  set { before with written := [], output := .output }
  isolated action
  let text := ((← get).written.reverse.map Prod.snd).flatten
  modify fun s => { s with written := before.written, output := before.output }
  pure text

/-! ## Built-in commands -/

/-- The number of a signal, given by number or name. -/
def signalOf? (s : Text) : Option Nat :=
  let name := if s.startsWith "SIG".ascii then s.drop 3 else s
  if !s.isEmpty && s.all Byte.isDigit then some (Text.digitsValue s)
  else
    ([("HUP", 1), ("INT", 2), ("QUIT", 3), ("ABRT", 6), ("KILL", 9), ("USR1", 10), ("SEGV", 11),
      ("USR2", 12), ("PIPE", 13), ("ALRM", 14), ("TERM", 15), ("CONT", 18)].find? fun (key, _) =>
        key.ascii == name).map Prod.snd

/-- Sends a signal; the shell itself ends by most of them. -/
def send (signal : Nat) (targets : List Text) : ShellM Unit :=
  if targets != [Text.ofNat processId] then setStatus 1
  else if signal = 0 || signal = 17 || signal = 18 || signal = 28 then setStatus 0
  else throw (.killed signal)

def kill : List Text → ShellM Unit
  | [] => setStatus 2
  | first :: rest =>
    match rest with
    | name :: targets =>
      if first == "-s".ascii then
        match signalOf? name with
        | some signal => send signal targets
        | none => setStatus 2
      else if first.head? == some '-'.ascii then
        match signalOf? (first.drop 1) with
        | some signal => send signal rest
        | none => setStatus 2
      else send 15 (first :: rest)
    | [] => send 15 [first]

/-- Ends the shell. -/
def leave (args : List Text) : ShellM Unit := do
  match args with
  | [] => throw (.exited (← get).status)
  | n :: _ =>
    if !n.isEmpty && n.all Byte.isDigit then throw (.exited (Text.digitsValue n % 256))
    else throw (.exited 2)

def changeDirectory (args : List Text) : ShellM Unit := do
  let s ← get
  let home ← valueOf "HOME".ascii
  match s.machine.enter? (args.head?.getD home) with
  | some machine => set { s with machine, status := 0 }
  | none => setStatus 2

def assignWords (words : List Text) : ShellM Unit := do
  for word in words do
    if word.contains '='.ascii then
      setVariable (Text.before '='.ascii word) (Text.after '='.ascii word)
  setStatus 0

/-- Reads a line of input into a variable. -/
def readInto (names : List Text) : ShellM Unit := do
  let s ← get
  set { s with input := Text.after Byte.lineFeed s.input
               status := if s.input.isEmpty then 1 else 0 }
  match names.getLast? with
  | some name => setVariable name (Text.trim (Text.before Byte.lineFeed s.input))
  | none => pure ()

def call (args : List Text) : ShellM UtilityCall := do
  let s ← get
  pure ⟨s.machine, args, s.input⟩

/-- The utilities that the shell has itself. -/
def ownUtilities : List Text := ["true", "false", "printf", "test", "[", "pwd"].map String.ascii

/-- The built-in command of that name that needs no evaluation, with its arguments. -/
def builtin? (name : Text) (args : List Text) : Option (ShellM Unit) :=
  if name == "exit".ascii then some (leave args)
  else if name == "kill".ascii then some (kill args)
  else if name == "cd".ascii then some (changeDirectory args)
  else if name == "export".ascii then some (assignWords args)
  else if name == "read".ascii then some (readInto args)
  else if name == "shift".ascii then
    some (modify fun s => { s with arguments := s.arguments.drop 1, status := 0 })
  else if name == "set".ascii then
    some (modify fun s =>
      { s with
        arguments := if args.head? == some "--".ascii then args.drop 1 else s.arguments
        status := 0 })
  else if name == "echo".ascii then some (finish (Utility.echo true args))
  else if [":".ascii, "trap".ascii, "wait".ascii, "unset".ascii].contains name then
    some (setStatus 0)
  else if ownUtilities.contains name then
    (Utility.find? name).map fun utility => do finish (utility (← call args))
  else none

end ShellM

open ShellM

/-! ## Programs in files -/

/-- What an executable file holds. -/
inductive Image where
  | utility (name : Text)
  /-- A script for an interpreter with one argument at most. -/
  | interpreted (interpreter : Text) (argument : List Text)
  | script (text : Text)
  deriving DecidableEq, Repr

/-- How the file of a utility starts. -/
def utilityMark : Text := 0x7f :: "ELF".ascii

/-- What the contents of an executable file are. -/
def Image.ofBytes (bytes : Text) : Image :=
  if bytes.startsWith utilityMark then .utility (bytes.drop utilityMark.length)
  else if bytes.startsWith "#!".ascii then
    let line := Text.trim (Text.before Byte.lineFeed (bytes.drop 2))
    let interpreter := line.takeWhile fun b => !Byte.isBlank b
    let argument := Text.trim (line.drop interpreter.length)
    .interpreted interpreter (if argument.isEmpty then [] else [argument])
  else .script bytes

def shellNames : List Text := ["sh", "dash", "bash"].map String.ascii

def installed : List (Text × Node) :=
  let names := shellNames ++ Utility.all.map fun utility => utility.1.ascii
  names.map fun name => (name, .file ⟨utilityMark ++ name, 0, true⟩)

/-! ## Evaluation -/

/-- The exit status of a command that is not found, and of a file that cannot be run. -/
def notFound : Nat := 127
def notExecutable : Nat := 126

mutual

def evaluate : (steps : Nat) → ShellCommand → ShellM Unit
  | 0, _ => do
    modify fun s => { s with seconds := s.seconds + 1000000 }
    throw (.killed 9)
  | steps + 1, command =>
    match command with
    | .nothing => pure ()
    | .sequence left right => do
      evaluate steps left
      evaluate steps right
    | .both left right => do
      evaluate steps left
      if (← get).status = 0 then evaluate steps right
    | .either left right => do
      evaluate steps left
      if (← get).status ≠ 0 then evaluate steps right
    | .negation c => do
      evaluate steps c
      setStatus (if (← get).status = 0 then 1 else 0)
    | .pipeline left right => do
      let text ← captured (evaluate steps left)
      isolated do
        modify fun s => { s with input := text }
        evaluate steps right
    | .conditional test yes no => do
      evaluate steps test
      if (← get).status = 0 then evaluate steps yes
      else do
        setStatus 0
        evaluate steps no
    | .loop inverted test body => do
      evaluate steps test
      if ((← get).status = 0) != inverted then do
        evaluate steps body
        evaluate steps (.loop inverted test body)
      else setStatus 0
    | .forEach name words body => do
      let items ← expandAll steps words
      setStatus 0
      evaluateEach steps name items body
    | .group body redirections => withStreams do
      if ← redirect steps redirections then evaluate steps body
    | .subshell body redirections => isolated do
      if ← redirect steps redirections then evaluate steps body
    | .simple assignments words redirections => do
      let fields ← expandAll steps words
      assign steps assignments
      match fields with
      | [] => withStreams do
        let _ ← redirect steps redirections
      | name :: args => withStreams do
        if ← redirect steps redirections then invoke steps name args

/-- Evaluates the body of a loop for each item. -/
def evaluateEach : (steps : Nat) → Text → List Text → ShellCommand → ShellM Unit
  | 0, _, _, _ | _, _, [], _ => pure ()
  | steps + 1, name, item :: rest, body => do
    setVariable name item
    evaluate steps body
    evaluateEach steps name rest body

def expandParts : (steps : Nat) → Fields → Word → ShellM Fields
  | 0, f, _ | _, f, [] => pure f
  | steps + 1, f, part :: rest =>
    match part with
    | .plain text => expandParts steps (f.add false text) rest
    | .quoted text => expandParts steps (f.add true text) rest
    | .parameter name isQuoted => do
      expandParts steps (f.addValues name isQuoted (← values name)) rest
    | .output script isQuoted => do
      let text ← captured (runScript steps script)
      let line := (text.reverse.dropWhile (· == Byte.lineFeed)).reverse
      expandParts steps (if isQuoted then f.add true line else f.split line) rest

def expandAll : (steps : Nat) → List Word → ShellM (List Text)
  | 0, _ | _, [] => pure []
  | steps + 1, word :: rest => do
    let fields ← expandParts steps ⟨[], none⟩ word
    let here ← fields.close.complete.mapM names
    pure (here.flatten ++ (← expandAll steps rest))

/-- The single text that a word stands for. -/
def expandWord : (steps : Nat) → Word → ShellM Text
  | 0, _ => pure []
  | steps + 1, word => do
    let fields ← expandParts steps ⟨[], none⟩ word
    pure (Text.joinWith " ".ascii (fields.close.complete.map Field.text))

def assign : (steps : Nat) → List (Text × Word) → ShellM Unit
  | 0, _ | _, [] => pure ()
  | steps + 1, (name, word) :: rest => do
    setVariable name (← expandWord steps word)
    setStatus 0
    assign steps rest

def redirect : (steps : Nat) → List Redirection → ShellM Bool
  | 0, _ | _, [] => pure true
  | steps + 1, r :: rest => do
    let opened : Bool ← match r with
      | .input word => do
        let path ← expandWord steps word
        match (← get).machine.files.readUpTo? Utility.maxRead path with
        | some text => do
          modify fun s => { s with input := text }
          pure true
        | none => pure false
      | .output descriptor appends word => do
        let path ← expandWord steps word
        match ← openSink appends path with
        | some sink => do
          setSink descriptor sink
          pure true
        | none => pure false
      | .duplicate descriptor word => do
        let source ← expandWord steps word
        let s ← get
        setSink descriptor (if source == "1".ascii then s.output
          else if source == "2".ascii then s.errors else .discarded)
        pure true
    if opened then redirect steps rest
    else do
      setStatus 2
      pure false

def invoke : (steps : Nat) → Text → List Text → ShellM Unit
  | 0, _, _ => pure ()
  | steps + 1, name, args =>
    match builtin? name args with
    | some action => action
    | none =>
      if name == "eval".ascii then runScript steps (Text.joinWith " ".ascii args)
      else if name == "command".ascii || name == "exec".ascii then
        match args with
        | [] => setStatus 0
        | first :: rest => do
          invoke steps first rest
          if name == "exec".ascii then throw (.exited (← get).status)
      else do
        let m := (← get).machine
        match m.started? name with
        | some path => runFile steps path args
        | none => setStatus (if m.files.pathExists name then notExecutable else notFound)

def runFile : (steps : Nat) → Text → List Text → ShellM Unit
  | 0, _, _ => pure ()
  | steps + 1, path, args => do
    let bytes := ((← get).machine.files.readAll? path).getD []
    match Image.ofBytes bytes with
    | .utility name =>
      if shellNames.contains name then runShell steps name args
      else
        match Utility.find? name with
        | some utility => finish (utility (← call args))
        | none => setStatus notFound
    | .interpreted interpreter argument => do
      if (← get).machine.files.isExecutableFile interpreter then
        runFile steps interpreter (argument ++ path :: args)
      else setStatus notFound
    | .script text => runAs steps path args text

/-- Runs the shell with its arguments: a script after `-c`, or one in a file, or the input. -/
def runShell : (steps : Nat) → Text → List Text → ShellM Unit
  | 0, _, _ => pure ()
  | steps + 1, name, args =>
    match args with
    | [] => do runAs steps name [] (← get).input
    | first :: rest =>
      if first == "-c".ascii then
        match rest with
        | [] => setStatus 2
        | [script] => runAs steps name [] script
        | script :: name :: args => runAs steps name args script
      else if first.head? == some '-'.ascii then runShell steps name rest
      else do
        match (← get).machine.files.readAll? first with
        | some script => runAs steps first rest script
        | none => setStatus notFound

def runAs : (steps : Nat) → Text → List Text → Text → ShellM Unit
  | 0, _, _, _ => pure ()
  | steps + 1, name, arguments, script => isolated do
    modify fun s => { s with name, arguments, status := 0 }
    runScript steps script

def runScript : (steps : Nat) → Text → ShellM Unit
  | 0, _ => pure ()
  | steps + 1, script =>
    match read script with
    | some command => evaluate steps command
    | none => throw (.exited 2)

end

/-! ## Starting programs -/

def startState (m : Machine) : ShellState :=
  { machine := m
    name := []
    arguments := []
    status := 0
    input := []
    output := .output
    errors := .discarded
    written := []
    seconds := 0 }

/-- The programs of a machine: utilities, and scripts that the shell runs. -/
def programs : Programs := fun m path args =>
  let (outcome, s) := (runFile maxSteps path args).run (startState m)
  { writes := s.written.reverse
    seconds := s.seconds
    ending := match outcome with
      | .ok () => .exited s.status
      | .error (.exited status) => .exited status
      | .error (.killed signal) => .killed signal }

end Shell

end Triage
