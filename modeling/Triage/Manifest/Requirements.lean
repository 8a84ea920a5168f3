import Triage.Manifest.Dependency

/-!
Requirements files: one requirement a line, besides options and bare URLs.
-/

namespace Triage

namespace Requirements

/-- Whether a line gives a URL without a package name. -/
def isBareUrl (line : Text) : Bool :=
  Text.occursIn "://".ascii line && !Text.occursIn " @ ".ascii line

def ofLine? (number : Nat) (line : Text) : Option Dependency :=
  let line := Dependency.withoutComment line
  if line.isEmpty || line.head? == some '-'.ascii || isBareUrl line then none
  else Dependency.ofRequirement? number line

def dependencies (text : Text) : List Dependency :=
  Dependency.collect (fun _ number line => ((), (ofLine? number line).toList)) () 1 (Text.lines text)

end Requirements

end Triage
