import Triage.FileSystem.Change
import Triage.Proofs.FileSystem.Following
import Triage.Proofs.Walk

/-!
Two trees of files that differ in some places.

Directories and links are all that following a path goes through. So if each of two trees has all
directories and links of the other (`SameWays`), a path leads to the same place in both, as long as
the trees agree on that place (`locate_agree`), and what is read by a path that leads to no place
on which they differ is the same (`AgreeOn.readUpTo?_eq`, `AgreeOn.pathExists_eq`).
-/

namespace Triage

open Triage.Path (IsName AreNames)

namespace Node

variable {n m : Node}

theorem alone_eq_empty : n.alone = empty ↔ ∃ es, n = directory es := by
  cases n <;> simp [alone, empty]

theorem alone_eq_link {target : Text} : n.alone = link target ↔ n = link target := by
  cases n <;> simp [alone, empty]

theorem alone_eq_file {data : FileData} : n.alone = file data ↔ n = file data := by
  cases n <;> simp [alone, empty]

theorem alike_of_alone (h : m.alone = n.alone) : n.Alike m := by
  cases n with
  | directory es =>
    obtain ⟨es', rfl⟩ := alone_eq_empty.mp h
    exact Or.inr ⟨es, es', rfl, rfl⟩
  | file data => exact Or.inl (alone_eq_file.mp h).symm
  | link target => exact Or.inl (alone_eq_link.mp h).symm
  | pipe => cases m <;> simp_all [alone, empty, Alike]

/-- What is set at a place changes no node elsewhere, what is below that node left aside. -/
theorem find?_set_outside {place ns : List Text} (h : ¬place <+: ns) (v : Option Node) (n : Node) :
    ((n.set v place).find? ns).map alone = (n.find? ns).map alone := by
  induction place generalizing n ns with
  | nil => exact absurd List.nil_prefix h
  | cons name rest ih =>
    cases n with
    | file | link | pipe => cases rest <;> rfl
    | directory es =>
      obtain ⟨es', hset, hother, hsame⟩ := exists_set_cons v name rest es
      rw [hset]
      cases ns with
      | nil => rfl
      | cons x ns =>
        by_cases hx : x = name
        · subst hx
          have hrest : ¬rest <+: ns := fun hprefix => h (List.cons_prefix_cons.mpr ⟨rfl, hprefix⟩)
          -- The way to the place goes on below, so its first directory is still there.
          have hne : rest ≠ [] := by
            rintro rfl
            exact hrest List.nil_prefix
          simp only [find?, child?, entries, hsame hne]
          cases es.lookup x with
          | none => rfl
          | some c => exact ih hrest c
        · simp only [find?, child?, entries, hother x hx]

end Node

namespace FileSystem

variable {fs fs' : FileSystem} {ns here todo : List Text} {path : Text} {n : Node}
variable {es : List (Text × Node)} {followLast : Bool} {links : Nat}

/-! ## Places on which two trees agree -/

/-- The two trees have the same node at a place, what is below it left aside. -/
def AgreeAt (fs fs' : FileSystem) (ns : List Text) : Prop :=
  (fs.nodeAt? ns).map Node.alone = (fs'.nodeAt? ns).map Node.alone

theorem AgreeAt.symm (h : AgreeAt fs fs' ns) : AgreeAt fs' fs ns := Eq.symm h

theorem AgreeAt.node (h : AgreeAt fs fs' ns) (hn : fs.nodeAt? ns = some n) :
    ∃ m, fs'.nodeAt? ns = some m ∧ m.alone = n.alone := by
  rw [AgreeAt, hn] at h
  exact Option.map_eq_some_iff.mp h.symm

theorem AgreeAt.directory (h : AgreeAt fs fs' ns) (hn : fs.nodeAt? ns = some (.directory es)) :
    ∃ es', fs'.nodeAt? ns = some (.directory es') := by
  obtain ⟨m, hm, halone⟩ := h.node hn
  obtain ⟨es', rfl⟩ := Node.alone_eq_empty.mp halone
  exact ⟨es', hm⟩

theorem AgreeAt.link {target : Text} (h : AgreeAt fs fs' ns)
    (hn : fs.nodeAt? ns = some (.link target)) : fs'.nodeAt? ns = some (.link target) := by
  obtain ⟨m, hm, halone⟩ := h.node hn
  rwa [Node.alone_eq_link.mp halone] at hm

theorem AgreeAt.noLink (h : AgreeAt fs fs' ns) (hlink : NoLink (fs.nodeAt? ns)) :
    NoLink (fs'.nodeAt? ns) := fun target htarget => hlink target (h.symm.link htarget)

theorem AgreeAt.file {data : FileData} (h : AgreeAt fs fs' ns)
    (hn : fs.nodeAt? ns = some (.file data)) : fs'.nodeAt? ns = some (.file data) := by
  obtain ⟨m, hm, halone⟩ := h.node hn
  rwa [Node.alone_eq_file.mp halone] at hm

theorem agreeAt_setAt {place : List Text} (h : ¬place <+: ns) (fs : FileSystem) (v : Option Node) :
    AgreeAt fs (fs.setAt place v) ns := (Node.find?_set_outside h v fs.root).symm

/-- What is set in a directory is its entry from then on. -/
theorem nodeAt?_setAt_entry (hdir : fs.nodeAt? ns = some (.directory es)) (name : Text)
    (v : Option Node) :
    (fs.setAt (ns ++ [name]) v).nodeAt? ns = some (.directory (Node.setEntry name v es)) := by
  rw [nodeAt?, setAt, Node.set_concat hdir, Node.find?_set_self hdir]

/-- Relative paths start at the same place, and the trees agree wherever one of them has a
directory or a link. -/
structure SameWays (fs fs' : FileSystem) : Prop where
  workingDirectory : fs.workingDirectory = fs'.workingDirectory
  directory : ∀ ns es, fs.nodeAt? ns = some (.directory es) → AgreeAt fs fs' ns
  directory' : ∀ ns es, fs'.nodeAt? ns = some (.directory es) → AgreeAt fs fs' ns
  link : ∀ ns target, fs.nodeAt? ns = some (.link target) → AgreeAt fs fs' ns
  link' : ∀ ns target, fs'.nodeAt? ns = some (.link target) → AgreeAt fs fs' ns

theorem SameWays.symm (h : SameWays fs fs') : SameWays fs' fs where
  workingDirectory := h.workingDirectory.symm
  directory ns es hes := (h.directory' ns es hes).symm
  directory' ns es hes := (h.directory ns es hes).symm
  link ns target ht := (h.link' ns target ht).symm
  link' ns target ht := (h.link ns target ht).symm

/-! ## Paths in both trees -/

/-- A path leads to the same place in both trees, if they agree on it. -/
theorem follow_agree (hways : SameWays fs fs') (hns : AgreeAt fs fs' ns)
    (h : fs.follow followLast links here todo = .ok ⟨ns, some n⟩) :
    fs'.follow followLast links here todo = .ok ⟨ns, fs'.nodeAt? ns⟩ := by
  have hnode := nodeAt?_of_follow h
  refine follow_eq_ok_iff.mpr ((follow_eq_ok_iff.mp h).carry (fun ns hdir => ?_)
    (fun ns target htarget => (hways.link ns target htarget).link htarget)
    (fun hlink => hns.noLink (hnode ▸ hlink)))
  obtain ⟨es, hes⟩ := isDirectoryAt_iff.mp hdir
  exact isDirectoryAt_iff.mpr ((hways.directory ns es hes).directory hes)

theorem locate_agree (hways : SameWays fs fs') (hns : AgreeAt fs fs' ns)
    (h : fs.locate followLast path = .ok ⟨ns, some n⟩) :
    fs'.locate followLast path = .ok ⟨ns, fs'.nodeAt? ns⟩ := by
  obtain ⟨hempty, hlength, hfollow, hslash⟩ := locate_eq_ok_iff.mp h
  rw [startOf, hways.workingDirectory] at hfollow
  refine locate_eq_ok_iff.mpr ⟨hempty, hlength, follow_agree hways hns hfollow, ?_⟩
  intro hend m hm
  obtain ⟨es, rfl⟩ := hslash hend n rfl
  obtain ⟨es', hes'⟩ := hns.directory (nodeAt?_of_follow hfollow)
  exact ⟨es', Option.some.inj (hm.symm.trans hes')⟩

/-- The trees agree on the place to which a path leads, if it leads anywhere in one of them. -/
structure AgreeOn (fs fs' : FileSystem) (path : Text) : Prop where
  left : ∀ ns n, fs.locate true path = .ok ⟨ns, some n⟩ → AgreeAt fs fs' ns
  right : ∀ ns n, fs'.locate true path = .ok ⟨ns, some n⟩ → AgreeAt fs fs' ns

theorem AgreeOn.symm (h : AgreeOn fs fs' path) : AgreeOn fs' fs path :=
  ⟨fun ns n hn => (h.right ns n hn).symm, fun ns n hn => (h.left ns n hn).symm⟩

theorem AgreeOn.node (h : AgreeOn fs fs' path) (hways : SameWays fs fs')
    (hn : fs.node true path = .ok n) : ∃ m, fs'.node true path = .ok m ∧ m.alone = n.alone := by
  obtain ⟨ns, hlocate⟩ := locate_of_node hn
  have hns := h.left ns n hlocate
  obtain ⟨m, hm, halone⟩ := hns.node (nodeAt?_of_locate hlocate)
  exact ⟨m, node_of_locate (hm ▸ locate_agree hways hns hlocate), halone⟩

theorem pathExists_iff : fs.pathExists path ↔ ∃ n, fs.node true path = .ok n := by
  rw [pathExists]
  cases fs.node true path with
  | ok n => exact ⟨fun _ => ⟨n, rfl⟩, fun _ => rfl⟩
  | error e => exact ⟨fun h => by contradiction, fun ⟨_, h⟩ => by contradiction⟩

theorem AgreeOn.pathExists_eq (h : AgreeOn fs fs' path) (hways : SameWays fs fs') :
    fs.pathExists path = fs'.pathExists path := by
  have hexists : ∀ {fs fs'}, AgreeOn fs fs' path → SameWays fs fs' →
      fs.pathExists path → fs'.pathExists path := by
    intro fs fs' h hways hn
    obtain ⟨n, hn⟩ := pathExists_iff.mp hn
    obtain ⟨m, hm, -⟩ := h.node hways hn
    exact pathExists_iff.mpr ⟨m, hm⟩
  rw [Bool.eq_iff_iff]
  exact ⟨hexists h hways, hexists h.symm hways.symm⟩

theorem readUpTo?_eq_some {limit : Nat} {text : Text} : fs.readUpTo? limit path = some text ↔
    ∃ data, fs.node true path = .ok (.file data) ∧ data.firstBytes limit = text := by
  rw [readUpTo?]
  constructor
  · intro h
    split at h
    · rename_i data hnode
      exact ⟨data, hnode, Option.some.inj h⟩
    · contradiction
  · rintro ⟨data, hnode, rfl⟩
    rw [hnode]

theorem AgreeOn.readUpTo?_eq (h : AgreeOn fs fs' path) (hways : SameWays fs fs') (limit : Nat) :
    fs.readUpTo? limit path = fs'.readUpTo? limit path := by
  have hfile : ∀ {fs fs' data}, AgreeOn fs fs' path → SameWays fs fs' →
      fs.node true path = .ok (.file data) → fs'.node true path = .ok (.file data) := by
    intro fs fs' data h hways hn
    obtain ⟨m, hm, halone⟩ := h.node hways hn
    rwa [Node.alone_eq_file.mp halone] at hm
  ext text
  rw [readUpTo?_eq_some, readUpTo?_eq_some]
  constructor
  · rintro ⟨data, hn, htext⟩
    exact ⟨data, hfile h hways hn, htext⟩
  · rintro ⟨data, hn, htext⟩
    exact ⟨data, hfile h.symm hways.symm hn, htext⟩

end FileSystem

end Triage
