import Triage.Finding
import Triage.Regex.Pattern

/-!
Detection rules.

A rule either searches the lines of the files in its scope for an expression, or is applied by a
check of its own to names, sizes and version control data. A `LineRule` is a rule of the first kind
ready for use; the cloud supplies further ones.
-/

namespace Triage

/-- The files to which a line rule applies. -/
inductive FileScope where
  /-- Every file whose content is scanned. -/
  | any
  | setupScript
  | packageJson
  | makefile
  | pyproject
  | container
  | workflow
  | agentConfig
  | manifest
  deriving DecidableEq, Repr

namespace FileScope

def all : List FileScope :=
  [any, setupScript, packageJson, makefile, pyproject, container, workflow, agentConfig, manifest]

def name : FileScope → Text
  | any => "any".ascii
  | setupScript => "setup_script".ascii
  | packageJson => "package_json".ascii
  | makefile => "makefile".ascii
  | pyproject => "pyproject".ascii
  | container => "container".ascii
  | workflow => "workflow".ascii
  | agentConfig => "agent_config".ascii
  | manifest => "manifest".ascii

def isYaml (name : Text) : Bool := name.endsWith ".yml".ascii || name.endsWith ".yaml".ascii

/-- Whether the path runs through the directory `dir`, given with a slash at its end. -/
def isBelow (dir path : Text) : Bool :=
  path.startsWith dir || Text.occursIn (Byte.slash :: dir) path

def covers (scope : FileScope) (path : Text) : Bool :=
  let name := Text.baseName path
  match scope with
  | any => true
  | setupScript => ["setup.py".ascii, "setup.cfg".ascii].contains name
  | packageJson => name == "package.json".ascii
  | makefile =>
    ["Makefile".ascii, "makefile".ascii, "GNUmakefile".ascii].contains name ||
      name.endsWith ".mk".ascii
  | pyproject => name == "pyproject.toml".ascii
  | container =>
    let lower := name.toLower
    lower.startsWith "dockerfile".ascii || lower.startsWith "containerfile".ascii ||
      lower.endsWith ".dockerfile".ascii ||
      ((lower.startsWith "docker-compose".ascii || lower.startsWith "compose".ascii) &&
        isYaml lower)
  | workflow => isYaml name && isBelow ".github/workflows/".ascii path
  | agentConfig =>
    [".mcp.json".ascii, "mcp.json".ascii, "claude_desktop_config.json".ascii].contains name ||
      (name.startsWith "settings".ascii && name.endsWith ".json".ascii &&
        isBelow ".claude/".ascii path)
  | manifest =>
    (name.startsWith "requirements".ascii && name.endsWith ".txt".ascii) ||
      ["package.json".ascii, "Pipfile".ascii, "pyproject.toml".ascii].contains name

end FileScope

/-- Which pass applies a rule. -/
inductive RuleGroup where
  | phase | dependency
  deriving DecidableEq, Repr

/-- How a rule is applied. -/
inductive RuleKind where
  /-- The lines are searched for a pattern. -/
  | lines (pattern : Text) (ignoreCase : Bool)
  /-- A check of its own applies the rule. -/
  | structural
  deriving DecidableEq, Repr

structure Rule where
  id : Text
  phase : Phase
  severity : Severity
  weight : Nat
  description : Text
  kind : RuleKind
  group : RuleGroup
  scope : FileScope
  deriving DecidableEq, Repr

/-- A rule that is ready to be searched for. -/
structure LineRule where
  id : Text
  phase : Phase
  severity : Severity
  weight : Int
  description : Text
  scope : FileScope
  source : Text
  regex : Regex
  deriving DecidableEq, Repr

namespace Rule

def pattern (r : Rule) : Text :=
  match r.kind with
  | .lines pattern _ => pattern
  | .structural => []

def ignoresCase (r : Rule) : Bool :=
  match r.kind with
  | .lines _ ignoreCase => ignoreCase
  | .structural => false

/-- The rule as a line rule, if it searches lines and its pattern is well formed. -/
def lineRule? (r : Rule) : Option LineRule :=
  match r.kind with
  | .structural => none
  | .lines pattern ignoreCase =>
    (Regex.ofPattern? ignoreCase pattern).map fun regex =>
      ⟨r.id, r.phase, r.severity, r.weight, r.description, r.scope, builtinSource, regex⟩

/-- A finding of the rule about a file or one of its lines. -/
def finding (r : Rule) (file : Text) (line : Option Nat) (snippet : Text) : Finding :=
  { phase := r.phase, rule := r.id, source := builtinSource, severity := r.severity, file, line
    snippet, weight := r.weight }

end Rule

end Triage
