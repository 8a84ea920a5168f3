import Triage.Walk

/-!
Loading the text of a file that is to be scanned.

Files that are too large, cannot be read, or hold a zero byte near their start are skipped, each
for a reason that reports can name.
-/

namespace Triage

/-- Why the content of a file is not scanned. -/
inductive SkipReason where
  | tooLarge (limit : Nat)
  | unreadable
  | binary
  deriving DecidableEq, Repr

def SkipReason.message : SkipReason → Text
  | tooLarge limit => "larger than ".ascii ++ Text.ofNat limit ++ " bytes".ascii
  | unreadable => "unreadable".ascii
  | binary => "binary content".ascii

namespace Content

/-- How many bytes are looked at to tell text from binary data. -/
def sniffSize : Nat := 8192

def looksBinary (data : Text) : Bool := (data.take sniffSize).contains 0

/-- The text of a file; a limit of zero is none. -/
def load (fs : FileSystem) (limit : Nat) (f : FileEntry) : Except SkipReason Text :=
  if 0 < limit && limit < f.size then .error (.tooLarge limit)
  else
    match fs.readAll? f.fullPath with
    | none => .error .unreadable
    | some data => if looksBinary data then .error .binary else .ok data

end Content

end Triage
