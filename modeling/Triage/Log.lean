import Triage.Text

/-!
Log messages and how important they are.
-/

namespace Triage

inductive LogLevel where
  | error | warn | info | debug | trace
  deriving DecidableEq, Repr

namespace LogLevel

def all : List LogLevel := [error, warn, info, debug, trace]

def rank : LogLevel → Nat
  | error => 0
  | warn => 1
  | info => 2
  | debug => 3
  | trace => 4

def name : LogLevel → Text
  | error => "error".ascii
  | warn => "warn".ascii
  | info => "info".ascii
  | debug => "debug".ascii
  | trace => "trace".ascii

/-- The level of that name; `warning` is another name for `warn`. Case and surrounding blanks do not
count. -/
def ofName? (s : Text) : Option LogLevel :=
  let s := Text.toLower (Text.trim s)
  if s == "warning".ascii then some warn else all.find? fun level => level.name == s

/-- The mark of a message. -/
def label (level : LogLevel) : Text := level.name.map Byte.toUpper

end LogLevel

structure LogMessage where
  level : LogLevel
  text : Text
  deriving DecidableEq, Repr

namespace LogMessage

def shownAt (level : LogLevel) (m : LogMessage) : Bool := m.level.rank ≤ level.rank

def line (m : LogMessage) : Text :=
  "[sigil] ".ascii ++ m.level.label ++ ": ".ascii ++ m.text ++ [Byte.lineFeed]

/-- The message as it stands in a log file, with the time in front. -/
def stampedLine (time : Text) (m : LogMessage) : Text :=
  time ++ " ".ascii ++ m.level.label ++ " ".ascii ++ m.text ++ [Byte.lineFeed]

def error (text : Text) : LogMessage := ⟨.error, text⟩
def warn (text : Text) : LogMessage := ⟨.warn, text⟩
def info (text : Text) : LogMessage := ⟨.info, text⟩
def debug (text : Text) : LogMessage := ⟨.debug, text⟩

end LogMessage

end Triage
