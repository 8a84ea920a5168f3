import Triage.Text

/-!
Dependencies as manifests declare them, and when a version counts as pinned.
-/

namespace Triage

/-- A package that a manifest asks for. -/
structure Dependency where
  name : Text
  /-- The version as written; empty if none was given. -/
  spec : Text
  /-- The line of the manifest, counted from one. -/
  line : Nat
  pinned : Bool
  deriving DecidableEq, Repr

namespace Dependency

/-! ## Python versions -/

/-- What stands from the first `==` on. -/
def fromEquals? : Text → Option Text
  | [] => none
  | b :: rest => if "==".ascii.isPrefixOf (b :: rest) then some (b :: rest) else fromEquals? rest

/-- Whether a version is exact: a direct reference with `@`, or `==` without a star after it. -/
def isExact (spec : Text) : Bool :=
  let spec := Text.trim spec
  spec.head? == some '@'.ascii ||
    match fromEquals? spec with
    | some rest => !rest.contains '*'.ascii
    | none => false

/-! ## npm versions -/

def isTagByte (b : UInt8) : Bool :=
  Byte.isLetterOrDigit b || b == '.'.ascii || b == '-'.ascii

/-- A mark and a tag after it, or nothing: what follows them, or nothing if a tag is empty. -/
def skipTag (mark : UInt8) (s : Text) : Option Text :=
  match s with
  | [] => some []
  | b :: rest =>
    if b != mark then some s
    else if (rest.takeWhile isTagByte).isEmpty then none
    else some (rest.dropWhile isTagByte)

def skipByte (b : UInt8) (s : Text) : Text := if s.head? == some b then s.drop 1 else s

def afterNumber? (s : Text) : Option Text :=
  if (s.takeWhile Byte.isDigit).isEmpty then none else some (s.dropWhile Byte.isDigit)

def afterByte? (b : UInt8) (s : Text) : Option Text :=
  if s.head? == some b then some (s.drop 1) else none

/-- Whether a version is three numbers, perhaps after `=` and `v`, and perhaps with a tag after
`-` and one after `+`. -/
def isSemantic (spec : Text) : Bool :=
  let s := skipByte 'v'.ascii (skipByte '='.ascii (Text.trim spec))
  let rest := do
    let s ← afterNumber? s
    let s ← afterByte? '.'.ascii s
    let s ← afterNumber? s
    let s ← afterByte? '.'.ascii s
    let s ← afterNumber? s
    let s ← skipTag '-'.ascii s
    skipTag '+'.ascii s
  rest == some []

/-! ## Lines of a manifest -/

/-- A line up to its first `#`, trimmed. A `#` within quotes counts too. -/
def withoutComment (line : Text) : Text := Text.trim (Text.before '#'.ascii line)

def isNameByte (b : UInt8) : Bool :=
  Byte.isLetterOrDigit b || b == '.'.ascii || b == '_'.ascii || b == '-'.ascii

/-- The version in what follows the name of a requirement: extras in brackets and a marker after a
semicolon do not belong to it. -/
def versionAfterName (rest : Text) : Text :=
  let rest := Text.before ';'.ascii rest
  Text.trim (if rest.head? == some '['.ascii then Text.after ']'.ascii rest else rest)

/-- The dependency that a requirement of the form `name[extras] version; marker` declares. -/
def ofRequirement? (line : Nat) (requirement : Text) : Option Dependency :=
  let name := requirement.takeWhile isNameByte
  if name.isEmpty then none
  else
    let version := versionAfterName (requirement.dropWhile isNameByte)
    some ⟨name, version, line, isExact version⟩

/-- The texts in single or double quotes on a line. A quote without a partner is passed over. -/
def quotedTexts : Text → List Text
  | [] => []
  | b :: rest =>
    if (b == '"'.ascii || b == '\''.ascii) && rest.contains b then
      Text.before b rest :: quotedTexts (Text.after b rest)
    else quotedTexts rest
termination_by s => s.length
decreasing_by
  · have := (List.dropWhile_sublist (l := rest) (· != b)).length_le
    simp only [Text.after, List.length_drop, List.length_cons]; omega
  · simp

/-- The name of the section that a line opens with brackets. -/
def sectionName? (line : Text) : Option Text :=
  let line := Text.trim line
  if 2 ≤ line.length && line.head? == some '['.ascii && line.getLast? == some ']'.ascii then
    some (Text.trim (line.drop 1).dropLast)
  else none

/-- The name and what follows the equals sign on a line `name = value`; the name may stand in
double quotes if `quotes` allows it. -/
def assignment? (quotes : Bool) (line : Text) : Option (Text × Text) :=
  let unquote (s : Text) : Text := if quotes then skipByte '"'.ascii s else s
  let start := unquote (line.dropWhile Byte.isSpace)
  let name := start.takeWhile isNameByte
  let rest := (unquote (start.dropWhile isNameByte)).dropWhile Byte.isSpace
  if name.isEmpty then none else (afterByte? '='.ascii rest).map fun value => (name, value)

/-- A text without the white space at its start, of which the last byte of the text stays. -/
def skipSpaceButLast : Text → Text
  | [] => []
  | [b] => [b]
  | b :: rest => if Byte.isSpace b then skipSpaceButLast rest else b :: rest

/-- The value of an assignment: not empty, and without a carriage return. -/
def value? (rest : Text) : Option Text :=
  let value := skipSpaceButLast rest
  if value.isEmpty || value.contains Byte.carriageReturn then none else some (Text.trim value)

/-! ## All lines -/

/-- Reads lines with a state: each line changes the state and declares dependencies. -/
def collect {σ : Type} (step : σ → Nat → Text → σ × List Dependency) (state : σ) (number : Nat) :
    List Text → List Dependency
  | [] => []
  | line :: rest =>
    let (next, found) := step state number line
    found ++ collect step next (number + 1) rest

end Dependency

end Triage
