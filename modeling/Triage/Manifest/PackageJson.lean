import Triage.Document
import Triage.Manifest.Dependency

/-!
Manifests of npm packages: JSON objects of which four members list dependencies.

A document does not say where its parts stand, so the line of a dependency is that of the first
place, from the name of its section on, where its name stands in quotes.
-/

namespace Triage

namespace PackageJson

/-- The members of a manifest that list dependencies. -/
def sections : List Text :=
  ["dependencies", "devDependencies", "peerDependencies", "optionalDependencies"].map String.ascii

def quoted (name : Text) : Text := '"'.ascii :: name ++ ['"'.ascii]

/-- The line of the first place at an offset or after it where a piece stands; zero if it stands
nowhere. -/
def lineOf (piece : Text) (start : Nat) (text : Text) : Nat :=
  match Text.findFrom piece start (text.drop start) with
  | some offset => (text.take offset).count Byte.lineFeed + 1
  | none => 0

/-- The dependency that a member of a section declares; a version that is no text counts as none. -/
def ofMember (text : Text) (start : Nat) (member : Text × Document) : Dependency :=
  let (name, value) := member
  let spec := value.text?.getD []
  ⟨name, spec, lineOf (quoted name) start text, Dependency.isSemantic spec⟩

def ofSection (text : Text) (members : List (Text × Document)) (name : Text) : List Dependency :=
  let start := (Text.find? (quoted name) text).getD 0
  (((members.lookup name).bind Document.members?).getD []).map (ofMember text start)

def dependencies (text : Text) (members : List (Text × Document)) : List Dependency :=
  sections.flatMap (ofSection text members)

end PackageJson

end Triage
