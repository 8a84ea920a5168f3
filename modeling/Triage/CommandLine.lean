import Triage.CommandLine.Help
import Triage.Config

/-!
The command line: options, a command word and its arguments, in any order.

Words that start with a dash are options, up to the word `--`; the value of an option follows it or
stands after an equals sign. Options change the settings or say how the command is to be run.
-/

namespace Triage

inductive Command where
  | none | scan | add | list | approve | reject | login | logout | fetch | diff | configGet
  | configSet | configList
  deriving DecidableEq, Repr

namespace Command

def name : Command → Text
  | none => []
  | scan => "scan".ascii
  | add => "add".ascii
  | list => "list".ascii
  | approve => "approve".ascii
  | reject => "reject".ascii
  | login => "login".ascii
  | logout => "logout".ascii
  | fetch => "fetch".ascii
  | diff => "diff".ascii
  | configGet => "config get".ascii
  | configSet => "config set".ascii
  | configList => "config list".ascii

def simple : List Command := [scan, add, list, approve, reject, login, logout, fetch, diff]

def arity : Command → Nat × Nat
  | none => (0, 0)
  | scan => (1, 256)
  | add | approve | reject | diff | configGet => (1, 1)
  | list | login | logout | fetch | configList => (0, 0)
  | configSet => (2, 2)

end Command

/-- What to do, besides the settings. -/
structure Invocation where
  command : Command := .none
  args : List Text := []
  /-- The descriptor of a new item; empty for its path. -/
  source : Text := []
  scanAfterAdd : Bool := true
  /-- The report with which a scan is compared. -/
  baseline : Text := []
  email : Text := []
  password : Text := []
  /-- Cached signatures are not used. -/
  force : Bool := false
  /-- From -1, quiet, to 2, trace. -/
  verbosity : Int := 0
  deriving DecidableEq, Repr

/-- Why a command line is refused. -/
inductive UsageError where
  | unknownOption (option : Text)
  | unexpectedValue (option : Text)
  | missingValue (option : Text)
  | invalidInteger (option value : Text)
  | fileLimitNotPositive
  | unknownPhase (name : Text)
  | unknownCommand (word : Text)
  | unknownConfigAction (word : Text)
  | wrongArguments (command : Command)
  | missingBaseline
  deriving DecidableEq, Repr

def UsageError.message : UsageError → Text
  | unknownOption option => "unknown option: ".ascii ++ option
  | unexpectedValue option => "option ".ascii ++ option ++ " takes no value".ascii
  | missingValue option => "missing value for ".ascii ++ option
  | invalidInteger option value =>
    "invalid integer for ".ascii ++ option ++ ": ".ascii ++ value
  | fileLimitNotPositive => "--max-file-bytes must be positive".ascii
  | unknownPhase name => "unknown phase '".ascii ++ name ++ "'".ascii
  | unknownCommand word => "unknown command: ".ascii ++ word
  | unknownConfigAction word => "unknown config action: ".ascii ++ word
  | wrongArguments .configList => "config list takes no arguments".ascii
  | wrongArguments .configGet => "usage: sigil config get KEY".ascii
  | wrongArguments .configSet => "usage: sigil config set KEY VALUE".ascii
  | wrongArguments command =>
    "wrong number of arguments for '".ascii ++ command.name ++ "' (see --help)".ascii
  | missingBaseline => "diff requires --baseline FILE".ascii

/-- Why no integer can be read at the start of a text. -/
inductive NumberError where
  | noDigits
  | outOfRange
  deriving DecidableEq, Repr

def NumberError.message : NumberError → Text
  | noDigits => "not a number".ascii
  | outOfRange => "number out of range".ascii

/-- What ends the parsing of a command line. -/
inductive ParseError where
  | usage (cause : UsageError)
  /-- An error of reading numbers that was not turned into one of usage. -/
  | number (cause : NumberError)
  deriving DecidableEq, Repr

def ParseError.message : ParseError → Text
  | usage cause => cause.message
  | number cause => cause.message

/-- What a command line sets. -/
structure Settings where
  config : Config
  invocation : Invocation
  deriving DecidableEq, Repr

namespace Settings

def withConfig (f : Config → Config) (s : Settings) : Settings := { s with config := f s.config }

def withInvocation (f : Invocation → Invocation) (s : Settings) : Settings :=
  { s with invocation := f s.invocation }

end Settings

/-- A part of parsing, which changes the settings and may end it. What was set before an error stays
set. -/
abbrev Parsing (α : Type) := ExceptT ParseError (StateM Settings) α

namespace Parsing

def refuse {α : Type} (e : UsageError) : Parsing α := throw (.usage e)

def setConfig (f : Config → Config) : Parsing Unit := modify (Settings.withConfig f)

def setInvocation (f : Invocation → Invocation) : Parsing Unit := modify (Settings.withInvocation f)

end Parsing

/-- What an option does. -/
inductive OptionEffect where
  /-- The option stands alone. -/
  | flag (apply : Parsing Unit)
  /-- The option has a value. -/
  | value (apply : Text → Parsing Unit)

structure CommandOption where
  name : Text
  /-- A second, short name. -/
  short : Option Text
  effect : OptionEffect

namespace CommandLine

/-! ## Values of options -/

/-- The largest and the smallest integer that an option takes. -/
def maxInteger : Int := Int32.maxValue.toInt
def minInteger : Int := Int32.minValue.toInt

/-- The integer in decimal at the start of a text, perhaps after white space and a sign, and what
follows it. -/
def leadingInteger (s : Text) : Except NumberError (Int × Text) :=
  let s := s.dropWhile Byte.isSpace
  let negative := s.head? == some '-'.ascii
  let s := if negative || s.head? == some '+'.ascii then s.drop 1 else s
  let digits := s.takeWhile Byte.isDigit
  let value : Int := Text.digitsValue digits
  let value := if negative then -value else value
  if digits.isEmpty then .error .noDigits
  else if value < minInteger || maxInteger < value then .error .outOfRange
  else .ok (value, s.dropWhile Byte.isDigit)

/-- A text that is an integer and nothing more. -/
def integer? (s : Text) : Option Int :=
  match leadingInteger s with
  | .ok (n, []) => some n
  | _ => none

/-- The integer that a text is as a whole; with anything behind it the text is refused. -/
def wholeInteger (refused : UsageError) (s : Text) : Parsing Int :=
  match leadingInteger s with
  | .ok (n, rest) => if rest.isEmpty then pure n else Parsing.refuse refused
  | .error e => throw (.number e)

/-- The value of an option that takes an integer. Whatever is wrong with it is an error of usage. -/
def integerFor (option : String) (value : Text) : Parsing Int :=
  let refused := .invalidInteger option.ascii value
  tryCatch (wholeInteger refused value) fun
    | .number _ => Parsing.refuse refused
    | e => throw e

/-- Selects the phases of a list of names, one after the other; `all`, wherever it stands, selects
all phases. -/
def addPhases : List Text → Parsing Unit
  | [] => pure ()
  | name :: rest =>
    if name == "all".ascii then Parsing.setConfig fun c => { c with phases := [] }
    else
      match Phase.ofName? name with
      | some phase => do
        Parsing.setConfig fun c => { c with phases := c.phases ++ [phase] }
        addPhases rest
      | none => Parsing.refuse (.unknownPhase name)

/-! ## The options -/

def flag (name : String) (apply : Parsing Unit) : CommandOption := ⟨name.ascii, none, .flag apply⟩

/-- An option that stands alone and has a short name. -/
def shortFlag (name short : String) (apply : Parsing Unit) : CommandOption :=
  ⟨name.ascii, some short.ascii, .flag apply⟩

def text (name : String) (apply : Text → Parsing Unit) : CommandOption :=
  ⟨name.ascii, none, .value apply⟩

def integer (name : String) (apply : Int → Parsing Unit) : CommandOption :=
  ⟨name.ascii, none, .value fun value => do apply (← integerFor name value)⟩

/-- One step more of logging; the first step ends the quiet. -/
def moreVerbose (verbosity : Int) : Int := if verbosity < 0 then 1 else verbosity + 1

open Parsing in
def options : List CommandOption :=
  [text "--format" fun v => setConfig fun c => { c with format := v },
   flag "--json" (setConfig fun c => { c with format := "json".ascii }),
   flag "--sarif" (setConfig fun c => { c with format := "sarif".ascii }),
   text "--phases" fun v => do
     setConfig fun c => { c with phases := [] }
     addPhases (Text.splitCommas v),
   text "--min-severity" fun v => setConfig fun c => { c with minSeverity := v },
   text "--enable" fun v => setConfig fun c => { c with enabled := Text.splitCommas v },
   text "--disable" fun v => setConfig fun c => { c with disabled := Text.splitCommas v },
   text "--tools" fun v => setConfig fun c => { c with externalTools := Text.splitCommas v },
   integer "--timeout" fun n => setConfig fun c => { c with scannerTimeout := n },
   integer "--http-timeout" fun n => setConfig fun c => { c with httpTimeout := n },
   integer "--max-file-bytes" fun n =>
     if n ≤ 0 then refuse .fileLimitNotPositive
     else setConfig fun c => { c with maxFileBytes := n.toNat },
   text "--ignore-file" fun v => setConfig fun c => { c with ignoreFile := v },
   integer "--parallel-threads" fun n => setConfig fun c => { c with parallelThreads := n },
   flag "--no-parallel" (setConfig fun c => { c with parallel := false }),
   flag "--offline" (setConfig fun c => { c with offline := true }),
   flag "--no-persist" (setConfig fun c => { c with persistReports := false }),
   text "--api-url" fun v => setConfig fun c => { c with apiEndpoint := v },
   text "--source" fun v => setInvocation fun i => { i with source := v },
   flag "--no-scan" (setInvocation fun i => { i with scanAfterAdd := false }),
   text "--baseline" fun v => setInvocation fun i => { i with baseline := v },
   text "--email" fun v => setInvocation fun i => { i with email := v },
   text "--password" fun v => setInvocation fun i => { i with password := v },
   flag "--force" (setInvocation fun i => { i with force := true }),
   shortFlag "--verbose" "-v"
     (setInvocation fun i => { i with verbosity := moreVerbose i.verbosity }),
   shortFlag "--quiet" "-q" (setInvocation fun i => { i with verbosity := -1 })]

def option? (name : Text) : Option CommandOption :=
  options.find? fun o => o.name == name || o.short == some name

def effect? (name : Text) : Option OptionEffect := (option? name).map CommandOption.effect

/-! ## Options and positional words -/

/-- What a word is, going by its start. -/
inductive Word where
  | positional
  /-- All further words are positional. -/
  | endOfOptions
  | help
  | version
  | traceAll
  /-- An option with the value that stands after its equals sign. -/
  | option (name : Text) (value : Option Text)
  deriving DecidableEq, Repr

def wordOf (s : Text) : Word :=
  if s.head? != some '-'.ascii || s == "-".ascii then .positional
  else if s == "--".ascii then .endOfOptions
  else if s == "--help".ascii || s == "-h".ascii then .help
  else if s == "--version".ascii then .version
  else if s == "-vv".ascii then .traceAll
  else if s.startsWith "--".ascii && s.contains '='.ascii then
    .option (Text.before '='.ascii s) (some (Text.after '='.ascii s))
  else .option s none

/-- What reading the words comes to. -/
inductive Reading where
  /-- A text is shown and nothing done. -/
  | shown (output : Text)
  /-- All words are read; the positional ones are left. -/
  | positional (words : List Text)
  deriving DecidableEq, Repr

/-- Adds a positional word in front of those that a reading has left. -/
def Reading.cons (word : Text) : Reading → Reading
  | shown output => shown output
  | positional words => positional (word :: words)

/-- Applies the options among the words, one after the other. -/
def read : List Text → Parsing Reading
  | [] => pure (.positional [])
  | word :: rest =>
    match wordOf word with
    | .positional => return (← read rest).cons word
    | .endOfOptions => pure (.positional rest)
    | .help => pure (.shown Help.text)
    | .version => pure (.shown Help.version)
    | .traceAll => do
      Parsing.setInvocation fun i => { i with verbosity := 2 }
      read rest
    | .option name value =>
      match effect? name, value with
      | none, _ => Parsing.refuse (.unknownOption name)
      | some (.flag _), some _ => Parsing.refuse (.unexpectedValue name)
      | some (.flag apply), none => do
        apply
        read rest
      | some (.value apply), some v => do
        apply v
        read rest
      | some (.value apply), none =>
        match rest with
        | [] => Parsing.refuse (.missingValue name)
        | v :: rest => do
          apply v
          read rest

/-! ## Commands -/

def setCommand (command : Command) (args : List Text) : Parsing Unit :=
  Parsing.setInvocation fun i => { i with command, args }

/-- Refuses a number of arguments that the command does not take. -/
def checkArguments (command : Command) (args : List Text) : Parsing Unit :=
  if command.arity.1 ≤ args.length && args.length ≤ command.arity.2 then pure ()
  else Parsing.refuse (.wrongArguments command)

/-- Sets the command if it takes that number of arguments. -/
def takeCommand (command : Command) (args : List Text) : Parsing Unit := do
  checkArguments command args
  setCommand command args

def configCommand : List Text → Parsing Unit
  | [] => setCommand .configList []
  | action :: args =>
    if action == "list".ascii then do
      Parsing.setInvocation fun i => { i with command := .configList }
      checkArguments .configList args
      Parsing.setInvocation fun i => { i with args := [] }
    else if action == "get".ascii then takeCommand .configGet args
    else if action == "set".ascii then takeCommand .configSet args
    else Parsing.refuse (.unknownConfigAction action)

/-- Sets a command that is one word. A comparison needs something to compare with. -/
def simpleCommand (word : Text) (args : List Text) : Parsing Unit :=
  match Command.simple.find? fun c => c.name == word with
  | none => Parsing.refuse (.unknownCommand word)
  | some command => do
    takeCommand command args
    if command == .diff && (← get).invocation.baseline.isEmpty then
      Parsing.refuse .missingBaseline

/-- Sets the command that positional words name, with its arguments. -/
def chooseCommand (word : Text) (args : List Text) : Parsing Unit :=
  if word == "config".ascii then configCommand args else simpleCommand word args

/-- Sets the command of the positional words, unless a text is shown instead of running one; without
any words it is the help. -/
def conclude : Reading → Parsing (Option Text)
  | .shown output => pure (some output)
  | .positional [] => pure (some Help.text)
  | .positional (word :: args) => do
    chooseCommand word args
    pure none

/-- Parses the words after the name of the program, and gives what is shown instead of running a
command. A word ends at its first zero byte. -/
def interpretWords (words : List Text) : Parsing (Option Text) := do
  conclude (← read (words.map (Text.before 0)))

structure Parsed where
  settings : Settings
  /-- What is shown instead of running a command. -/
  output : Option Text
  deriving DecidableEq, Repr

/-- Parses the words after the name of the program, beginning with some settings. -/
def parse (s : Settings) (words : List Text) : Except ParseError Parsed :=
  match (interpretWords words).run.run s with
  | (.ok output, settings) => .ok ⟨settings, output⟩
  | (.error e, _) => .error e

/-- The words of a line, which single spaces separate. -/
def wordsOf (line : Text) : List Text :=
  let words := Text.splitOn 32 line
  if words.getLast? == some [] then words.dropLast else words

end CommandLine

end Triage
