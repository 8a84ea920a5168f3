import Triage.FileSystem.Change

/-!
What has to be done on a disk to bring it from one tree of files to another.

A directory that is new in one place and gone from another under the same last name was moved. Links
and pipes are never made.
-/

namespace Triage

inductive DiskChange where
  | makeDirectory (path : Text)
  | write (path bytes : Text)
  | remove (path : Text)
  | move (source target : Text)
  deriving DecidableEq, Repr

/-- The place from which a change takes something away, leaving it as it was. -/
def DiskChange.moved? : DiskChange → Option Text
  | move source _ => some source
  | _ => none

namespace Node

def entryPath (dir name : Text) : Text := dir ++ Byte.slash :: name

mutual

/-- The topmost paths at which nothing of the same kind is left. -/
def removals (path : Text) (after : Option Node) : Node → List Text
  | directory entries =>
    match after with
    | some (directory others) => removalsOf path others entries
    | _ => [path]
  | file _ => if after.map kind == some .file then [] else [path]
  | link _ => if after.map kind == some .link then [] else [path]
  | pipe => if after.map kind == some .pipe then [] else [path]

def removalsOf (path : Text) (after : List (Text × Node)) : List (Text × Node) → List Text
  | [] => []
  | (name, n) :: rest =>
    removals (entryPath path name) (after.lookup name) n ++ removalsOf path after rest

end

mutual

/-- What has to be made or written, given what is removed elsewhere. -/
def additions (removed : List Text) (path : Text) (before : Option Node) : Node → List DiskChange
  | file data =>
    match before with
    | some (file old) => if old = data then [] else [.write path data.bytes]
    | _ => [.write path data.bytes]
  | directory entries =>
    match before with
    | some (directory others) => additionsOf removed path others entries
    | _ =>
      match removed.find? fun source => Text.baseName source == Text.baseName path with
      | some source => [.move source path]
      | none => .makeDirectory path :: additionsOf removed path [] entries
  | link _ | pipe => []

def additionsOf (removed : List Text) (path : Text) (before : List (Text × Node)) :
    List (Text × Node) → List DiskChange
  | [] => []
  | (name, n) :: rest =>
    additions removed (entryPath path name) (before.lookup name) n ++
      additionsOf removed path before rest

end

end Node

/-- The changes that lead from one tree to another, in an order in which they can be made. -/
def FileSystem.changesTo (before after : FileSystem) : List DiskChange :=
  let removed := before.root.removals [] (some after.root)
  let added := after.root.additions removed [] (some before.root)
  let moved := added.filterMap DiskChange.moved?
  (removed.filter fun path => !moved.contains path).map .remove ++ added

end Triage
