import Triage.Rule.Table
import Triage.Rule.Search

/-!
Capabilities that compose files add to a container in block form:

    cap_add:
      - SYS_ADMIN

The line rules see one line at a time and cannot connect an item with its heading. Blank lines may
stand within a block; any other line that is no item ends it.
-/

namespace Triage

namespace Capabilities

/-- The capabilities that are as good as root. -/
def dangerous : List Text := ["ALL".ascii, "SYS_ADMIN".ascii]

def isNameByte (b : UInt8) : Bool := Byte.isLetter b || b == '_'.ascii

/-- The text without a quote at its start. -/
def skipQuote : Text → Text
  | [] => []
  | b :: rest => if b == '\''.ascii || b == '"'.ascii then rest else b :: rest

/-- The indentation of a line that heads a block. -/
def headingIndent? (line : Text) : Option Nat :=
  let line := Text.before '#'.ascii line
  let body : Text := line.dropWhile Byte.isSpace
  let rest := (body.drop 7).dropWhile Byte.isSpace
  if body.startsWith "cap_add".ascii && rest.head? == some ':'.ascii &&
      (rest.drop 1).all Byte.isSpace then
    some (line.length - body.length)
  else none

def item? (line : Text) : Option (Nat × Text) :=
  let line := Text.before '#'.ascii line
  let body : Text := line.dropWhile Byte.isSpace
  let inner := skipQuote ((body.drop 1).dropWhile Byte.isSpace)
  let name := inner.takeWhile isNameByte
  if body.head? == some '-'.ascii && !name.isEmpty &&
      (skipQuote (inner.dropWhile isNameByte)).all Byte.isSpace then
    some (line.length - body.length, name)
  else none

/-- The dangerous items of a block, given the numbered lines after its heading. -/
def inBlock (indent : Nat) : List (Text × Nat) → List (Text × Nat)
  | [] => []
  | (line, number) :: rest =>
    if (Text.trim line).isEmpty then inBlock indent rest
    else
      match item? line with
      | none => []
      | some (inner, name) =>
        if inner < indent then []
        else if dangerous.contains name then (line, number) :: inBlock indent rest
        else inBlock indent rest

def inLines : List (Text × Nat) → List (Text × Nat)
  | [] => []
  | (line, _) :: rest =>
    (match headingIndent? line with
      | some indent => inBlock indent rest
      | none => []) ++ inLines rest

def findings (path text : Text) : List Finding :=
  (inLines ((Text.lines text).zipIdx 1)).map fun (line, number) =>
    RuleTable.addedCapability.finding path (some number)
      (LineRule.snippet RuleTable.addedCapability.description line)

end Capabilities

end Triage
