import Triage.Text

/-!
Files, directories, links and pipes.

A `Node` is what a directory entry refers to. A directory keeps its entries in the order in which
they were made. A file may end in a run of zero bytes that is not written out.
-/

namespace Triage

structure FileData where
  written : Text
  /-- The number of zero bytes after what is written. -/
  zeros : Nat
  executable : Bool
  deriving DecidableEq, Repr

namespace FileData

def size (f : FileData) : Nat := f.written.length + f.zeros

def bytes (f : FileData) : Text :=
  if f.zeros = 0 then f.written else f.written ++ List.replicate f.zeros 0

def firstBytes (limit : Nat) (f : FileData) : Text :=
  f.written.take limit ++ List.replicate (min f.zeros (limit - f.written.length)) 0

end FileData

inductive Node where
  | file (data : FileData)
  | directory (entries : List (Text × Node))
  | link (target : Text)
  /-- A named pipe, which stands for all special files. -/
  | pipe
  deriving Repr

inductive NodeKind where
  | file | directory | link | pipe
  deriving DecidableEq, Repr

namespace Node

def kind : Node → NodeKind
  | file _ => .file
  | directory _ => .directory
  | link _ => .link
  | pipe => .pipe

def empty : Node := directory []

/-- The entries of a directory; anything else has none. -/
def entries : Node → List (Text × Node)
  | directory entries => entries
  | _ => []

def child? (n : Node) (name : Text) : Option Node := n.entries.lookup name

/-- The node at the end of a row of names. -/
def find? (n : Node) : List Text → Option Node
  | [] => some n
  | name :: rest => (n.child? name).bind fun c => c.find? rest

/-- The entries with that of `name` replaced, added at the end, or removed. -/
def setEntry (name : Text) (value : Option Node) : List (Text × Node) → List (Text × Node)
  | [] => match value with
    | some v => [(name, v)]
    | none => []
  | (other, c) :: rest =>
    if other == name then
      match value with
      | some v => (name, v) :: rest
      | none => rest
    else (other, c) :: setEntry name value rest

/-- The tree with the node at a row of names replaced, added, or removed. Directories on the way
must exist; otherwise nothing changes. -/
def set (value : Option Node) : List Text → Node → Node
  | [], n => value.getD n
  | [name], directory entries => directory (setEntry name value entries)
  | name :: rest, directory entries =>
    match entries.lookup name with
    | some c => directory (setEntry name (some (set value rest c)) entries)
    | none => directory entries
  | _, n => n

end Node

end Triage
