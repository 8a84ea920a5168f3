import Triage.FileSystem.Change
import Triage.ItemId
import Triage.Quarantine.Description
import Triage.Quarantine.Error

/-!
The steps of quarantine operations.

Several operations may be under way at once. What each does to the files is a row of steps, each
of which happens as a whole; between two steps of one operation there may be steps of others. A
`Procedure` is such a row, in which every step may depend on the answers to the steps before it.
-/

namespace Triage

/-- Where a path leads for the copying of a new item. -/
inductive SourceKind where
  | file | directory | other
  deriving DecidableEq, Repr

inductive QuarantineStep where
  /-- Finds the path of an id below a root. -/
  | resolve (root id : Text)
  /-- Looks for an entry, be it a link. -/
  | exists (path : Text)
  /-- Looks at what is to be copied. -/
  | inspect (path : Text)
  /-- Makes a root directory and all directories on the way to it. -/
  | makeRoot (path : Text)
  | makeDirectory (path : Text)
  | removeDirectory (path : Text)
  /-- Opens the directory of an item, so that it can be locked. -/
  | openItem (path : Text)
  /-- Waits until no other operation holds the lock on the directory. -/
  | lock (path : Text)
  | unlock (path : Text)
  | rename (source target : Text)
  | copy (source target : Text)
  /-- Adds up the sizes of the files of a tree. -/
  | measure (path : Text)
  | write (path text : Text)
  | removeTree (path : Text)
  deriving DecidableEq, Repr

namespace QuarantineStep

abbrev Answer : QuarantineStep → Type
  | resolve .. => Except QuarantineError Text
  | «exists» _ => Bool
  | inspect _ => Option SourceKind
  | measure _ => Nat
  | lock _ | unlock _ => Unit
  | makeRoot _ | makeDirectory _ | removeDirectory _ | openItem _ | rename .. | copy .. | write ..
  | removeTree _ => Except FileError Unit

/-- The path of the entry of an id below a root. The entry must be directly below the root, and no
link. -/
def resolvePath (fs : FileSystem) (root id : Text) : Except QuarantineError Text :=
  if !ItemId.isValid id then .error (.invalidId id)
  else
    match fs.canonical root with
    | .error e => .error (.cannotResolve root e)
    | .ok base =>
      let slot := Path.join base id
      match fs.canonical slot with
      | .error e => .error (.cannotResolve slot e)
      | .ok resolved =>
        match Path.relativeElements resolved base with
        | [name] =>
          if name == Path.dot || name == Path.dotDot || Path.isAbsolute name then
            .error (.escapes id base)
          else
            match fs.node false slot with
            | .ok (.link _) => .error (.isLink id)
            | _ => .ok slot
        | _ => .error (.escapes id base)

/-- What kind of thing is to be copied; nothing if there is no such path. -/
def inspectPath (fs : FileSystem) (path : Text) : Option SourceKind :=
  match fs.node false path with
  | .error _ => none
  | .ok (.file _) => some .file
  | .ok (.directory _) => some .directory
  | .ok _ => some .other

/-- Whether a path is that of a directory, which no link stands for. -/
def openPath (fs : FileSystem) (path : Text) : Except FileError Unit :=
  match fs.node false path with
  | .error e => .error e
  | .ok (.directory _) => .ok ()
  | .ok (.link _) => .error .tooManyLinks
  | .ok _ => .error .notDirectory

def measurePath (fs : FileSystem) (path : Text) : Nat :=
  match fs.node false path with
  | .ok n => n.treeSize
  | .error _ => 0

/-- A change that may fail as a whole. -/
def change (fs : FileSystem) : Except FileError FileSystem → FileSystem × Except FileError Unit
  | .ok changed => (changed, .ok ())
  | .error e => (fs, .error e)

/-- Takes a step. Locks are not part of the tree of files; a step that waits for one is over as soon
as it is taken. -/
def perform (fs : FileSystem) : (step : QuarantineStep) → FileSystem × step.Answer
  | resolve root id => (fs, resolvePath fs root id)
  | «exists» path => (fs, fs.entryExists path)
  | inspect path => (fs, inspectPath fs path)
  | makeRoot path => fs.makeDirectories path
  | makeDirectory path => change fs (fs.makeDirectory path)
  | removeDirectory path => change fs (fs.removeDirectory path)
  | openItem path => (fs, openPath fs path)
  | lock _ | unlock _ => (fs, ())
  | rename source target => change fs (fs.renameNew source target)
  | copy source target => fs.copyTree source target
  | measure path => (fs, measurePath fs path)
  | write path text => change fs (fs.writeNew path text)
  | removeTree path => change fs (fs.removeTree path)

end QuarantineStep

/-- A row of steps that ends with a value. -/
inductive Procedure (α : Type) where
  | done (value : α)
  | step (s : QuarantineStep) (next : s.Answer → Procedure α)

namespace Procedure

/-- Goes on with a second procedure. -/
def andThen {α β : Type} (p : Procedure α) (next : α → Procedure β) : Procedure β :=
  match p with
  | done value => next value
  | step s rest => step s fun answer => (rest answer).andThen next

instance : Monad Procedure where
  pure := done
  bind := andThen

def take (s : QuarantineStep) : Procedure s.Answer := step s done

/-- Takes all steps one after the other, with no other steps between them. -/
def run {α : Type} (fs : FileSystem) : Procedure α → FileSystem × α
  | done value => (fs, value)
  | step s next =>
    let (fs, answer) := s.perform fs
    (next answer).run fs

end Procedure

end Triage
