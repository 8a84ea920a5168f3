import Triage.Manifest.PackageJson
import Triage.Manifest.Requirements
import Triage.Manifest.Pipfile
import Triage.Manifest.Pyproject

/-!
Dependency manifests, told apart by their file names.
-/

namespace Triage

inductive ManifestKind where
  | requirements | packageJson | pipfile | pyproject
  deriving DecidableEq, Repr

namespace ManifestKind

def name : ManifestKind → Text
  | requirements => "requirements".ascii
  | packageJson => "package.json".ascii
  | pipfile => "Pipfile".ascii
  | pyproject => "pyproject".ascii

/-- The kind of manifest that a path names, if it names one. -/
def ofPath? (path : Text) : Option ManifestKind :=
  let name := Text.baseName path
  if name.startsWith "requirements".ascii && name.endsWith ".txt".ascii then some requirements
  else if name == "package.json".ascii then some packageJson
  else if name == "Pipfile".ascii then some pipfile
  else if name == "pyproject.toml".ascii then some pyproject
  else none

end ManifestKind

structure Manifest where
  file : Text
  kind : ManifestKind
  dependencies : List Dependency
  /-- Why the manifest could not be read; empty if it could. -/
  error : Text
  deriving DecidableEq, Repr

namespace Manifest

/-- The manifest at a path; nothing if the path names none. `document` reads JSON; unless it is
given, no JSON is understood. -/
def ofFile? (path text : Text) (document : Text → Option Document := fun _ => none) :
    Option Manifest :=
  (ManifestKind.ofPath? path).map fun kind =>
    match kind with
    | .requirements => ⟨path, kind, Requirements.dependencies text, []⟩
    | .packageJson =>
      match (document text).bind Document.members? with
      | some members => ⟨path, kind, PackageJson.dependencies text members, []⟩
      | none => ⟨path, kind, [], "not valid JSON".ascii⟩
    | .pipfile => ⟨path, kind, Pipfile.dependencies text, []⟩
    | .pyproject => ⟨path, kind, Pyproject.dependencies text, []⟩

def packages (m : Manifest) : Nat := m.dependencies.length

def unpinned (m : Manifest) : List Dependency := m.dependencies.filter fun d => !d.pinned

end Manifest

end Triage
