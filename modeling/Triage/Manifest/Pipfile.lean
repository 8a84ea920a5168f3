import Triage.Manifest.Dependency

/-!
Pipfiles: sections of assignments, of which two list packages. The value of an assignment is a
version in quotes or an inline table.
-/

namespace Triage

namespace Pipfile

def packageSections : List Text := ["packages".ascii, "dev-packages".ascii]

def isWordByte (b : UInt8) : Bool := Byte.isLetterOrDigit b || b == '_'.ascii

/-- The text in double quotes after `version =` at the start. -/
def versionHere? (s : Text) : Option Text :=
  if s.startsWith "version".ascii then do
    let s ← Dependency.afterByte? '='.ascii ((s.drop 7).dropWhile Byte.isSpace)
    let s ← Dependency.afterByte? '"'.ascii (s.dropWhile Byte.isSpace)
    if s.contains '"'.ascii then some (Text.before '"'.ascii s) else none
  else none

/-- The version of an inline table; `previous` is the byte before the text. -/
def versionFrom? (previous : Option UInt8) : Text → Option Text
  | [] => none
  | b :: rest =>
    let here := if previous.any isWordByte then none else versionHere? (b :: rest)
    here <|> versionFrom? (some b) rest

/-- The version and whether it is pinned. An inline table without a version is pinned if `ref`
occurs in it. -/
def versionOf (value : Text) : Text × Bool :=
  if value.head? == some '\x7b'.ascii then
    match versionFrom? none value with
    | some spec => (spec, Dependency.isExact spec)
    | none => (value, Text.occursIn "ref".ascii value)
  else
    let spec := (Dependency.quotedTexts value).headD value
    (spec, Dependency.isExact spec)

def ofAssignment? (number : Nat) (line : Text) : Option Dependency := do
  let (name, rest) ← Dependency.assignment? true line
  let (spec, pinned) := versionOf (← Dependency.value? rest)
  pure ⟨name, spec, number, pinned⟩

def step (current : Text) (number : Nat) (line : Text) : Text × List Dependency :=
  let line := Dependency.withoutComment line
  match Dependency.sectionName? line with
  | some name => (name, [])
  | none =>
    (current,
      if packageSections.contains current then (ofAssignment? number line).toList else [])

def dependencies (text : Text) : List Dependency :=
  Dependency.collect step [] 1 (Text.lines text)

end Pipfile

end Triage
