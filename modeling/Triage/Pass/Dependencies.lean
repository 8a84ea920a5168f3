import Triage.Capabilities
import Triage.Content
import Triage.Manifest
import Triage.Pass

/-!
The pass that looks at dependency manifests and at the permissions of containers, workflows and
agents.
-/

namespace Triage

namespace DependenciesPass

def name : Text := "dependencies".ascii

structure Totals where
  manifests : Nat
  packages : Nat
  unpinned : Nat
  deriving DecidableEq, Repr

structure Progress where
  findings : List Finding
  notes : List Text
  totals : Totals
  deriving DecidableEq, Repr

def start : Progress := ⟨[], [], ⟨0, 0, 0⟩⟩

/-- Whether a dependency rule covers the path. -/
def isRuled (path : Text) : Bool :=
  RuleTable.dependencyRules.any fun r => r.scope.covers path

/-- The findings of the line rules and in capability blocks. -/
def permissionFindings (phases : List Phase) (path text : Text) : List Finding :=
  LineRule.findAll RuleTable.dependencyRules phases path text ++
  (if FileScope.container.covers path && Phase.selected phases .credentials then
    Capabilities.findings path text
  else [])

def unpinnedFinding (file : Text) (d : Dependency) : Finding :=
  let rule := RuleTable.unpinnedDependency
  rule.finding file (if d.line = 0 then none else some d.line)
    (LineRule.snippet rule.description
      (d.name ++ if d.spec.isEmpty then [] else " ".ascii ++ d.spec))

def addManifest (phases : List Phase) (p : Progress) (m : Manifest) : Progress :=
  if !m.error.isEmpty then { p with notes := p.notes ++ [m.file ++ ": ".ascii ++ m.error] }
  else
    let unpinned := m.unpinned
    { findings := p.findings ++
        (if Phase.selected phases RuleTable.unpinnedDependency.phase then
          unpinned.map (unpinnedFinding m.file)
        else [])
      notes := p.notes ++ [m.file ++ ": ".ascii ++ Text.ofNat m.packages ++ " packages, ".ascii ++
        Text.ofNat unpinned.length ++ " unpinned".ascii]
      totals := ⟨p.totals.manifests + 1, p.totals.packages + m.packages,
        p.totals.unpinned + unpinned.length⟩ }

def addText (formats : Formats) (phases : List Phase) (p : Progress) (path text : Text) : Progress :=
  let p :=
    if isRuled path then { p with findings := p.findings ++ permissionFindings phases path text }
    else p
  match if FileScope.manifest.covers path then Manifest.ofFile? path text formats.document
    else none with
  | some m => addManifest phases p m
  | none => p

/-- Takes a file into account, if it is of interest and can be read. -/
def addFile (fs : FileSystem) (formats : Formats) (c : Config) (p : Progress) (f : FileEntry) :
    Progress :=
  if f.eligible && (FileScope.manifest.covers f.path || isRuled f.path) then
    match Content.load fs c.maxFileBytes f with
    | .ok text => addText formats c.phases p f.path text
    | .error _ => p
  else p

def gather (fs : FileSystem) (formats : Formats) (c : Config) (files : List FileEntry) : Progress :=
  files.foldl (addFile fs formats c) start

def steps (p : Progress) : List PassStep :=
  p.notes.map (.note name) ++
  [.found name p.findings,
   .status name .ran (Text.ofNat p.totals.manifests ++ " manifests, ".ascii ++
     Text.ofNat p.totals.packages ++ " packages, ".ascii ++
     Text.ofNat p.totals.unpinned ++ " unpinned".ascii)]

end DependenciesPass

/-- The pass of dependencies and permissions. -/
def dependenciesPass : Pass where
  name := DependenciesPass.name
  description := "Dependency pinning and container/workflow/agent permission analysis".ascii
  run input :=
    .ofSteps (DependenciesPass.steps
      (DependenciesPass.gather input.machine.files input.formats input.config input.entries))

end Triage
