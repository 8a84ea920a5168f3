import Triage.Sha256
import Triage.Walk

/-!
The fingerprint of a tree: the digest of the paths and sizes of its files.

Every file counts, also those that no scan looks at. The pairs are sorted first, so the order in
which they are found does not matter; contents do not matter either.
-/

namespace Triage

/-- Why a tree has no fingerprint. -/
inductive FingerprintError where
  | notDirectory (root : Text)
  deriving DecidableEq, Repr

def FingerprintError.message : FingerprintError → Text
  | notDirectory root => "cannot fingerprint ".ascii ++ root ++ ": not a directory".ascii

namespace Fingerprint

/-- A path with the size of the file. -/
abbrev Entry := Text × UInt64

/-- Whether `a` comes strictly before `b`: by path, then by size. -/
def precedes (a b : Entry) : Bool := a.1 < b.1 || (a.1 == b.1 && a.2 < b.2)

def sort (entries : List Entry) : List Entry := entries.mergeSort fun a b => !precedes b a

/-- The eight bytes of a size, the least significant one first. -/
def sizeBytes (size : UInt64) : List UInt8 :=
  (List.range 8).map fun i => (size >>> (8 * i).toUInt64).toUInt8

/-- What is digested of an entry: the path, a zero byte, and the size. -/
def entryBytes (e : Entry) : Text := e.1 ++ 0 :: sizeBytes e.2

def stream (entries : List Entry) : Text := (sort entries).flatMap entryBytes

def ofEntries (entries : List Entry) : Text := Sha256.hex (stream entries)

def entries (fs : FileSystem) (root : Text) : List Entry :=
  (allFiles fs root).map fun f => (f.path, f.size.toUInt64)

def ofTree (fs : FileSystem) (root : Text) : Except FingerprintError Text :=
  if fs.isDirectory root then .ok (ofEntries (entries fs root)) else .error (.notDirectory root)

end Fingerprint

end Triage
