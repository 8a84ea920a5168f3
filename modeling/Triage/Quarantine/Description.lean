import Triage.FileSystem.Node
import Triage.Time

/-!
The description that is stored with an item: a JSON object with the keys in alphabetical order.
-/

namespace Triage

structure Description where
  id : Text
  source : Text
  createdAt : Int
  /-- The size of all files of the content. -/
  size : Nat
  deriving DecidableEq, Repr

namespace Description

/-- A byte of a JSON string: quotes, backslashes and control characters are escaped, and other bytes
stand as they are. -/
def escaped (b : UInt8) : Text :=
  if b == '"'.ascii || b == '\\'.ascii then ['\\'.ascii, b]
  else if b < 0x20 then "\\u00".ascii ++ Text.hex [b]
  else [b]

def jsonString (s : Text) : Text := "\"".ascii ++ s.flatMap escaped ++ "\"".ascii

def member (key : String) (value : Text) : Text := "  ".ascii ++ jsonString key.ascii ++ ": ".ascii ++ value

def text (d : Description) : Text :=
  "\x7b\n".ascii ++
  Text.joinWith ",\n".ascii
    [member "created_at" (jsonString (Time.iso d.createdAt)), member "id" (jsonString d.id),
     member "size_bytes" (Text.ofNat d.size), member "source" (jsonString d.source)] ++
  "\n\x7d\n".ascii

end Description

namespace Node

mutual

/-- The size of all files below a node; links and pipes have none. -/
def treeSize : Node → Nat
  | file data => data.size
  | directory entries => entriesSize entries
  | _ => 0

def entriesSize : List (Text × Node) → Nat
  | [] => 0
  | (_, n) :: rest => treeSize n + entriesSize rest

end

end Node

end Triage
