import Triage.Manifest.Dependency

/-!
The dependencies in `pyproject.toml`: arrays of requirements in the project and build sections,
which may run over several lines, and assignments in the sections of Poetry.
-/

namespace Triage

namespace Pyproject

structure State where
  sectionName : Text
  /-- An array of requirements is open. -/
  inArray : Bool
  deriving DecidableEq, Repr

/-- Whether an array of that name, in that section, lists requirements. -/
def listsRequirements (sectionName key : Text) : Bool :=
  sectionName == "project.optional-dependencies".ascii ||
    (sectionName == "project".ascii && key == "dependencies".ascii) ||
    (sectionName == "build-system".ascii && key == "requires".ascii)

/-- Whether the assignments of a section name packages. -/
def isPoetrySection (name : Text) : Bool :=
  name == "tool.poetry.dependencies".ascii || name == "tool.poetry.dev-dependencies".ascii ||
    (name.startsWith "tool.poetry.group.".ascii && name.endsWith ".dependencies".ascii)

/-- Whether a value is one exact version: numbers with dots between them, perhaps after `==`, and
perhaps in double quotes. -/
def isExactVersion (value : Text) : Bool :=
  let value := Dependency.skipByte '"'.ascii value
  let value := if value.startsWith "==".ascii then value.drop 2 else value
  (Text.splitOn '.'.ascii (Text.dropLastIf '"'.ascii value)).all fun part =>
    !part.isEmpty && part.all Byte.isDigit

def inQuotes (number : Nat) (line : Text) : List Dependency :=
  (Dependency.quotedTexts line).filterMap (Dependency.ofRequirement? number)

/-- The dependency that an assignment of a Poetry section declares; Python itself is none. -/
def ofAssignment? (number : Nat) (line : Text) : Option Dependency := do
  let (name, rest) ← Dependency.assignment? false line
  let value ← Dependency.value? rest
  if name == "python".ascii then none
  else
    let pinned := isExactVersion value
    pure ⟨name, (Dependency.quotedTexts value).headD value, number, pinned⟩

/-- What follows the bracket on a line that opens an array of requirements. -/
def arrayStart? (sectionName line : Text) : Option Text := do
  let (key, rest) ← Dependency.assignment? true line
  let rest ← Dependency.afterByte? '['.ascii (rest.dropWhile Byte.isSpace)
  if listsRequirements sectionName key && !rest.contains Byte.carriageReturn then some rest else none

/-- Reads a line that is part of an array. -/
def arrayLine (s : State) (number : Nat) (line : Text) : State × List Dependency :=
  ({ s with inArray := !line.contains ']'.ascii }, inQuotes number line)

def step (s : State) (number : Nat) (line : Text) : State × List Dependency :=
  let line := Dependency.withoutComment line
  if line.isEmpty then (s, [])
  else if s.inArray then arrayLine s number line
  else
    match Dependency.sectionName? line with
    | some name => ({ s with sectionName := name }, [])
    | none =>
      if isPoetrySection s.sectionName then (s, (ofAssignment? number line).toList)
      else
        match arrayStart? s.sectionName line with
        | some rest => arrayLine s number rest
        | none => (s, [])

def dependencies (text : Text) : List Dependency :=
  Dependency.collect step ⟨[], false⟩ 1 (Text.lines text)

end Pyproject

end Triage
