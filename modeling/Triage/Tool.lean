import Triage.Subprocess
import Triage.Report

/-!
External tools: third-party analysers that look at the same tree.
-/

namespace Triage

/-- What comes of running a tool. -/
structure ToolOutcome where
  state : ComponentState
  detail : Text
  findings : List Finding
  deriving DecidableEq, Repr

/-- The outcome of a run that gave nothing that can be used. -/
def ToolOutcome.degraded (detail : Text) : ToolOutcome := ⟨.degraded, detail, []⟩

structure Tool where
  name : Text
  available : Machine → Bool
  /-- Looks at the tree below a root, for so many seconds at most. -/
  run : Machine → (root : Text) → (timeout : Int) → ToolOutcome

namespace Tool

def component (t : Tool) : Text := "external:".ascii ++ t.name

/-! ## Paths -/

/-- The path without `./` in front, however often it stands there. -/
def dropDots : Text → Text
  | a :: b :: rest => if a == '.'.ascii && b == Byte.slash then dropDots rest else a :: b :: rest
  | path => path

/-- A path as a tool names it, below the root if it leads there. -/
def belowRoot (fs : FileSystem) (root path : Text) : Text :=
  if Path.isAbsolute path then
    match fs.canonical root with
    | .error _ => path
    | .ok base =>
      match Path.relativeElements path base with
      | [] => path
      | first :: rest => if first == Path.dotDot then path else Path.ofElements (first :: rest)
  else path

/-- A path that a tool names as reports show it. -/
def reportPath (fs : FileSystem) (root path : Text) : Text :=
  let shown := dropDots (belowRoot fs root path)
  if shown.isEmpty then Path.dot else shown

end Tool

end Triage
