import Triage.Text

/-!
Shell scripts: words, redirections and commands.

A word is a row of parts, of which some are only known when the script runs. Quoted parts are taken
as they are; unquoted ones may be split into several words, and their wildcards stand for names of
files.
-/

namespace Triage

namespace Shell

inductive WordPart where
  | plain (text : Text)
  | quoted (text : Text)
  /-- The value of a parameter or variable. -/
  | parameter (name : Text) (isQuoted : Bool)
  /-- The output of a script. -/
  | output (script : Text) (isQuoted : Bool)
  deriving DecidableEq, Repr

abbrev Word := List WordPart

inductive Redirection where
  | input (file : Word)
  | output (descriptor : Nat) (appends : Bool) (file : Word)
  /-- The descriptor goes where another goes. -/
  | duplicate (descriptor : Nat) (source : Word)
  deriving DecidableEq, Repr

inductive ShellCommand where
  | simple (assignments : List (Text × Word)) (words : List Word) (redirections : List Redirection)
  | pipeline (left right : ShellCommand)
  | negation (command : ShellCommand)
  | both (left right : ShellCommand)
  | either (left right : ShellCommand)
  | sequence (left right : ShellCommand)
  | conditional (test yes no : ShellCommand)
  /-- Runs the body as long as the test succeeds, or fails if `inverted`. -/
  | loop (inverted : Bool) (test body : ShellCommand)
  | forEach (name : Text) (words : List Word) (body : ShellCommand)
  | group (body : ShellCommand) (redirections : List Redirection)
  | subshell (body : ShellCommand) (redirections : List Redirection)
  | nothing
  deriving Repr

inductive Token where
  | word (parts : Word)
  | operator (text : Text)
  /-- A number right before a redirection. -/
  | descriptor (number : Nat)
  deriving DecidableEq, Repr

def isNameByte (b : UInt8) : Bool := Byte.isLetterOrDigit b || b == '_'.ascii

def isName (s : Text) : Bool :=
  s.all isNameByte && (s.head?.map fun b => !Byte.isDigit b).getD false

end Shell

end Triage
