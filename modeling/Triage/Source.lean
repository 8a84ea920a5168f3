import Triage.Regex.Match
import Triage.Regex.Pattern

/-!
Source descriptors: where a quarantined item came from. A descriptor is a URL, the name of a
package after `pip:` or `npm:`, or a local path.
-/

namespace Triage

/-- Why a URL, a package name or a source descriptor is refused. -/
inductive SourceError where
  | invalidUrl (url : Text)
  | invalidPackage (name : Text)
  | empty
  | pathTooLong
  | controlByte
  deriving DecidableEq, Repr

def SourceError.message : SourceError → Text
  | invalidUrl url => "invalid URL '".ascii ++ url ++ "'".ascii
  | invalidPackage name => "invalid package name '".ascii ++ name ++ "'".ascii
  | empty => "empty source descriptor".ascii
  | pathTooLong => "source path too long".ascii
  | controlByte => "source descriptor contains a control character".ascii

namespace Source

def isControl (b : UInt8) : Bool := b < 0x20 || b == 0x7f

def isHexDigit (b : UInt8) : Bool := Byte.isDigit b || (97 ≤ Byte.toLower b && Byte.toLower b ≤ 102)

/-- Whether a text as a whole matches a pattern. -/
def fits (pattern text : Text) : Bool :=
  (Regex.ofPattern? false pattern).any fun r => r.acceptsWhole text

/-! ## URLs -/

def maxUrl : Nat := 2048

/-- A host name or an address in brackets, perhaps with a port and a path. -/
def urlPattern : Text :=
  ("^(https?)://([A-Za-z0-9.\\-]+|\\[[0-9A-Fa-f:.]+\\])(:[0-9]\x7b1,5\x7d)?" ++
    "(/[^\\s]*)?$").ascii

def isUrl (url : Text) : Bool :=
  url.length ≤ maxUrl && fits urlPattern url && !url.any isControl

def checkUrl (url : Text) : Except SourceError Unit :=
  if isUrl url then .ok () else .error (.invalidUrl url)

/-! ## Package names -/

def maxPackage : Nat := 214

/-- A name, perhaps with a scope before it and a version after it. -/
def packagePattern : Text :=
  ("^(@[a-z0-9][a-z0-9._\\-~]*/)?[A-Za-z0-9][A-Za-z0-9._\\-]*" ++
    "((==|@)[A-Za-z0-9._\\-+!]+)?$").ascii

def isPackage (name : Text) : Bool :=
  name.length ≤ maxPackage && fits packagePattern name && !Text.occursIn "..".ascii name

def checkPackage (name : Text) : Except SourceError Unit :=
  if isPackage name then .ok () else .error (.invalidPackage name)

/-! ## Descriptors -/

def maxLocalPath : Nat := 4096

/-- Checks a descriptor. Whatever contains `://` is taken for a URL. -/
def check (descriptor : Text) : Except SourceError Unit :=
  if descriptor.isEmpty then .error .empty
  else if Text.occursIn "://".ascii descriptor then checkUrl descriptor
  else if descriptor.startsWith "pip:".ascii || descriptor.startsWith "npm:".ascii then
    checkPackage (descriptor.drop 4)
  else if maxLocalPath < descriptor.length then .error .pathTooLong
  else if descriptor.any isControl then .error .controlByte
  else .ok ()

end Source

end Triage
