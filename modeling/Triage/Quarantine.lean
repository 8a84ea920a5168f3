import Triage.Quarantine.Step

/-!
The quarantine, an area in which untrusted code waits for a decision.

An item is a directory, named by its id, below the root of the quarantine; after its approval it
stands below the root of the approved items. A rejected item is first renamed, so that it vanishes
in one step, and then deleted.
-/

namespace Triage

/-- The two roots of a quarantine. -/
structure Quarantine where
  root : Text
  approvedRoot : Text
  deriving DecidableEq, Repr

inductive ItemStatus where
  | quarantined | approved | rejected
  deriving DecidableEq, Repr

def ItemStatus.name : ItemStatus → Text
  | quarantined => "quarantined".ascii
  | approved => "approved".ascii
  | rejected => "rejected".ascii

structure Item where
  id : Text
  status : ItemStatus
  path : Text
  deriving DecidableEq, Repr

namespace Quarantine

/-- A procedure that may fail. -/
abbrev Attempt (α : Type) := ExceptT QuarantineError Procedure α

namespace Attempt

/-- Takes a step and uses its answer. -/
def ask (s : QuarantineStep) : Attempt s.Answer := ExceptT.lift (Procedure.take s)

/-- Takes a step that may fail, and says what its failure means. -/
def must (outcome : Attempt (Except FileError Unit)) (meaning : FileError → QuarantineError) :
    Attempt Unit := do
  match ← outcome with
  | .ok () => pure ()
  | .error e => throw (meaning e)

def resolve (root id : Text) : Attempt Text := do
  match ← ask (.resolve root id) with
  | .ok path => pure path
  | .error e => throw e

end Attempt

open Attempt

def makeRoots (q : Quarantine) : Attempt Unit := do
  must (ask (.makeRoot q.root)) (.cannotCreate q.root)
  must (ask (.makeRoot q.approvedRoot)) (.cannotCreate q.approvedRoot)

/-- Opens and locks the directory of an item. -/
def lockItem (path : Text) : Attempt Unit := do
  must (ask (.openItem path)) fun e =>
    match e with
    | .notFound => .noItemAt path
    | .tooManyLinks | .notDirectory => .notDirectory path
    | e => .cannotOpen path e
  ask (.lock path)

/-- Renames a locked item and gives up the lock. -/
def moveItem (source target : Text) (meaning : FileError → QuarantineError) : Attempt Unit := do
  lockItem source
  let outcome ← ask (.rename source target)
  ask (.unlock source)
  must (pure outcome) meaning

/-! ## Approving and rejecting -/

def approve (q : Quarantine) (id : Text) : Attempt Unit := do
  let source ← resolve q.root id
  let target ← resolve q.approvedRoot id
  if !(← ask (.exists source)) then
    if ← ask (.exists target) then throw (.alreadyApproved id) else throw (.notQuarantined id)
  q.makeRoots
  moveItem source target fun e =>
    match e with
    | .fileExists => .alreadyApproved id
    | .notFound => .notQuarantined id
    | e => .cannotApprove id e

/-- What tells the rejections of one process apart, and those of several. -/
def mark (process count : UInt32) : Text :=
  Text.ofNat process.toNat ++ "_".ascii ++ Text.ofNat count.toNat

/-- The path to which a rejected item is renamed before it is deleted; `mark` tells operations that
are under way at once apart. -/
def tombstone (q : Quarantine) (id mark : Text) : Text :=
  Path.join q.root (".rejected_".ascii ++ id ++ "_".ascii ++ mark)

/-- The path of an item that is to be rejected. -/
def toReject (q : Quarantine) (id : Text) : Attempt Text := do
  let source ← resolve q.root id
  if !(← ask (.exists source)) then
    let target ← resolve q.approvedRoot id
    if ← ask (.exists target) then throw (.isApproved id) else throw (.notQuarantined id)
  pure source

def discard (q : Quarantine) (mark id source : Text) : Attempt Unit := do
  let tomb := q.tombstone id mark
  moveItem source tomb fun e =>
    match e with
    | .notFound => .notQuarantined id
    | e => .cannotReject id e
  must (ask (.removeTree tomb)) (.cannotDelete id tomb)

def reject (q : Quarantine) (mark id : Text) : Attempt Unit := do
  q.discard mark id (← q.toReject id)

/-! ## New items -/

def maxCandidates : Nat := 1000

/-- The id without a number. -/
def baseId (now : Int) (descriptor : Text) : Text :=
  Time.idStamp now ++ "_".ascii ++ ItemId.slugify descriptor

/-- The `n`th id that is tried: the first has no number. -/
def candidate (base : Text) (n : Nat) : Text :=
  if n ≤ 1 then base else base ++ "_".ascii ++ Text.ofNat n

/-- Claims the first free id from the `n`th on, trying `left` ids, by making its directory. The
approved items are looked at before and after that: an approval of the same id may come between. -/
def claim (q : Quarantine) (base : Text) : (left n : Nat) → Attempt (Text × Text)
  | 0, _ => throw (.tooManyItems base)
  | left + 1, n => do
    let id := candidate base n
    if ← ask (.exists (Path.join q.approvedRoot id)) then q.claim base left (n + 1)
    else
      let path ← resolve q.root id
      match ← ask (.makeDirectory path) with
      | .error .fileExists => q.claim base left (n + 1)
      | .error e => throw (.cannotCreate path e)
      | .ok () =>
        if ← ask (.exists (Path.join q.approvedRoot id)) then
          let _ ← ask (.removeDirectory path)
          q.claim base left (n + 1)
        else pure (id, path)

/-- Copies the content of a new item; a file goes into a directory of its own. -/
def copyContent (kind : SourceKind) (source path : Text) : Attempt Unit := do
  let content := Path.join path "content".ascii
  if kind == .directory then
    must (ask (.copy source content)) (.cannotCopy source content)
  else
    let target := Path.join content (Path.fileName source)
    must (ask (.makeDirectory content)) (.cannotCopy source content)
    must (ask (.copy source target)) (.cannotCopy source target)

/-- The file that describes an item; an item without it is not listed. -/
def descriptionPath (path : Text) : Text := Path.join path "meta.json".ascii

def fill (kind : SourceKind) (now : Int) (descriptor source id path : Text) : Attempt Unit := do
  copyContent kind source path
  let size ← ask (.measure (Path.join path "content".ascii))
  must (ask (.write (descriptionPath path) (Description.text ⟨id, descriptor, now, size⟩))) fun _ =>
    .cannotDescribe (descriptionPath path)

/-- Takes in a copy of a file or directory and gives back its id. If that fails, the claimed
directory is removed. -/
def create (q : Quarantine) (now : Int) (descriptor source : Text) : Attempt Text := do
  match Source.check descriptor with
  | .ok () => pure ()
  | .error e => throw (.invalidSource e)
  match ← ask (.inspect source) with
  | none => throw (.noSource source)
  | some .other => throw (.unusableSource source)
  | some kind =>
    q.makeRoots
    let (id, path) ← q.claim (baseId now descriptor) maxCandidates 1
    match ← ExceptT.lift (ExceptT.run (fill kind now descriptor source id path)) with
    | .ok () => pure id
    | .error e =>
      let _ ← ask (.removeTree path)
      throw e

/-! ## Looking up items -/

/-- Whether the directory of an item holds its description. -/
def isDescribed (fs : FileSystem) (path : Text) : Bool :=
  (fs.readAll? (descriptionPath path)).any fun text => !text.isEmpty

def itemAt? (fs : FileSystem) (id path : Text) (status : ItemStatus) : Option Item :=
  if isDescribed fs path then some ⟨id, status, path⟩ else none

def find? (q : Quarantine) (fs : FileSystem) (id : Text) : Except QuarantineError (Option Item) := do
  let path ← QuarantineStep.resolvePath fs q.root id
  if fs.entryExists path then pure (itemAt? fs id path .quarantined)
  else
    let path ← QuarantineStep.resolvePath fs q.approvedRoot id
    if fs.entryExists path then pure (itemAt? fs id path .approved) else pure none

/-- The directory that holds the content of an item. -/
def contentPath (q : Quarantine) (fs : FileSystem) (id : Text) : Except QuarantineError Text := do
  match ← q.find? fs id with
  | some item => pure (Path.join item.path "content".ascii)
  | none => throw (.noItem id)

def itemsBelow (fs : FileSystem) (root : Text) (status : ItemStatus) : List Item :=
  match fs.listDirectory root with
  | .error _ => []
  | .ok entries =>
    entries.filterMap fun (name, n) =>
      match n with
      | .directory _ =>
        if ItemId.isValid name then itemAt? fs name (Path.join root name) status else none
      | _ => none

/-- All items in the order of their ids. -/
def items (q : Quarantine) (fs : FileSystem) : List Item :=
  (itemsBelow fs q.root .quarantined ++ itemsBelow fs q.approvedRoot .approved).mergeSort
    fun a b => !(b.id < a.id)

end Quarantine

end Triage
