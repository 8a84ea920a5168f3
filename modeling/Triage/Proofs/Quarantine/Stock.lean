import Triage.Proofs.FileSystem.Following
import Triage.Proofs.Slug
import Triage.Quarantine

/-!
What stands below the two roots of a quarantine.

`Places` says where the two roots are, and `Places.Hold` that the paths of a quarantine lead there,
whatever the roots hold. The files with certain entries below the roots, and all else as in given
files, are `Places.stock`; changing an entry of either root gives files of that form again
(`setAt_root`, `setAt_approved`).
-/

namespace Triage

open Triage.Path (IsName AreNames)
open FileSystem (maxPath absoluteText)

/-! ## Names in a quarantine -/

namespace ItemId

/-- The longest id of an item in a quarantine. -/
def maxItemId : Nat := 200

theorem isIdByte_ne {b : UInt8} (h : isIdByte b) : b ≠ Byte.slash ∧ b ≠ 0 ∧ b ≠ 46 := by
  refine ⟨?_, ?_, ?_⟩ <;> rintro rfl <;> contradiction

theorem isName_of_isValid {id : Text} (h : isValid id) : IsName id := by
  obtain ⟨hne, hlength, hbytes⟩ := isValid_iff.mp h
  have hdot : (46 : UInt8) ∉ id := fun hmem => (isIdByte_ne (hbytes _ hmem)).2.2 rfl
  exact
    { ne_nil := hne
      noSlash := fun hmem => (isIdByte_ne (hbytes _ hmem)).1 rfl
      noZero := fun hmem => (isIdByte_ne (hbytes _ hmem)).2.1 rfl
      ne_dot := fun hid => hdot (hid ▸ List.mem_cons_self)
      ne_dotDot := fun hid => hdot (hid ▸ List.mem_cons_self)
      length_le := hlength }

end ItemId

namespace Quarantine

/-- The name to which an item is renamed before it is deleted. -/
def tombName (id mark : Text) : Text := ".rejected_".ascii ++ id ++ "_".ascii ++ mark

theorem tombstone_eq (q : Quarantine) (id mark : Text) :
    q.tombstone id mark = Path.join q.root (tombName id mark) := rfl

/-- The longest name of a tombstone. -/
def maxTombName : Nat := 232

theorem length_mark_le (process count : UInt32) : (mark process count).length ≤ 21 := by
  have hprocess := Text.length_ofNat_le process
  have hcount := Text.length_ofNat_le count
  have hunderscore : "_".ascii.length = 1 := rfl
  simp only [mark, List.length_append, hunderscore]
  omega

/-- Only the first part of the name holds a dot, and no part holds a slash or a zero byte. -/
theorem not_mem_tombName {id : Text} {b : UInt8} (hstart : b ∉ ".rejected_".ascii)
    (hunderscore : b ∉ "_".ascii) (hdigit : ¬Byte.isDigit b) (hid : b ∉ id)
    (process count : UInt32) : b ∉ tombName id (mark process count) := by
  have hnumber : ∀ n, b ∉ Text.ofNat n := fun n h => hdigit (Text.isDigit_of_mem_ofNat h)
  simp only [tombName, mark, List.mem_append, not_or]
  exact ⟨⟨⟨hstart, hid⟩, hunderscore⟩, ⟨hnumber _, hunderscore⟩, hnumber _⟩

theorem length_tombName (id mark : Text) :
    (tombName id mark).length = id.length + mark.length + 11 := by
  have hstart : ".rejected_".ascii.length = 10 := rfl
  have hunderscore : "_".ascii.length = 1 := rfl
  simp only [tombName, List.length_append, hstart, hunderscore]
  omega

theorem ten_le_length_tombName (id mark : Text) : 10 ≤ (tombName id mark).length := by
  rw [length_tombName]
  omega

theorem zero_not_mem_tombName {id : Text} (hid : ItemId.isValid id) (process count : UInt32) :
    0 ∉ tombName id (mark process count) :=
  not_mem_tombName (by decide) (by decide) (by decide) (ItemId.isName_of_isValid hid).noZero _ _

/-- The name of a tombstone may be too long for a name, but has no other fault. -/
theorem isPiece_tombName {id : Text} (hid : ItemId.isValid id) (process count : UInt32) :
    Path.IsPiece (tombName id (mark process count)) where
  ne_nil h := by
    have hlong := ten_le_length_tombName id (mark process count)
    simp [h] at hlong
  noSlash := not_mem_tombName (by decide) (by decide) (by decide)
    (ItemId.isName_of_isValid hid).noSlash _ _

theorem isName_tombName_of_length {id : Text} (hid : ItemId.isValid id) {process count : UInt32}
    (hlength : (tombName id (mark process count)).length ≤ FileSystem.maxName) :
    IsName (tombName id (mark process count)) := by
  have hlong := ten_le_length_tombName id (mark process count)
  obtain ⟨hne, hslash⟩ := isPiece_tombName hid process count
  exact
    { ne_nil := hne
      noSlash := hslash
      noZero := zero_not_mem_tombName hid process count
      ne_dot := fun h => by simp [h, Path.dot, String.ascii] at hlong
      ne_dotDot := fun h => by simp [h, Path.dotDot, String.ascii] at hlong
      length_le := hlength }

theorem isName_tombName {id : Text} (hid : ItemId.isValid id)
    (hlength : id.length ≤ ItemId.maxItemId) (process count : UInt32) :
    IsName (tombName id (mark process count)) ∧
      (tombName id (mark process count)).length ≤ maxTombName := by
  have hmark := length_mark_le process count
  have hshort : (tombName id (mark process count)).length ≤ maxTombName := by
    rw [length_tombName, maxTombName]
    rw [ItemId.maxItemId] at hlength
    omega
  exact ⟨isName_tombName_of_length hid (Nat.le_trans hshort (by decide)), hshort⟩

theorem not_isValid_tombName (id mark : Text) : ItemId.isValid (tombName id mark) = false := by
  have hdot : tombName id mark = 46 :: ("rejected_".ascii ++ id ++ "_".ascii ++ mark) := rfl
  have hbyte : ItemId.isIdByte 46 = false := rfl
  simp [ItemId.isValid, hdot, hbyte]

/-! ## The two roots -/

/-- The entries below the roots of a quarantine. -/
structure Stock where
  quarantined : List (Text × Node)
  approved : List (Text × Node)

/-- An entry that a quarantine can hold: a directory that is named by an id. -/
structure IsItem (e : Text × Node) : Prop where
  isValid : ItemId.isValid e.1
  length_le : e.1.length ≤ ItemId.maxItemId
  isDirectory : ∃ es, e.2 = .directory es

/-- Below the roots are items, and no two of one id. -/
structure Stock.Sound (s : Stock) : Prop where
  quarantined : Node.UniqueNames s.quarantined
  approved : Node.UniqueNames s.approved
  items : ∀ e ∈ s.quarantined ++ s.approved, IsItem e
  apart : ∀ id ∈ s.quarantined.map Prod.fst, id ∉ s.approved.map Prod.fst

/-- Where the roots of a quarantine are. -/
structure Places where
  root : List Text
  approved : List Text

namespace Places

/-- The files with these entries below the roots, and all else as it is. -/
def stock (p : Places) (fs : FileSystem) (s : Stock) : FileSystem :=
  (fs.setAt p.root (some (.directory s.quarantined))).setAt p.approved
    (some (.directory s.approved))

/-- The roots of a quarantine are two directories, neither of them below the other, and their paths
lead there even if the roots are empty. Nothing is said of how much room there is for names. -/
structure Leads (p : Places) (q : Quarantine) (fs : FileSystem) : Prop where
  apart : Node.Apart p.root p.approved
  rootNames : AreNames p.root
  approvedNames : AreNames p.approved
  rootIsDirectory : fs.isDirectoryAt p.root
  approvedIsDirectory : fs.isDirectoryAt p.approved
  rootLeads : (p.stock fs ⟨[], []⟩).LeadsTo q.root p.root []
  approvedLeads : (p.stock fs ⟨[], []⟩).LeadsTo q.approvedRoot p.approved []
  rootNoZero : 0 ∉ q.root
  approvedNoZero : 0 ∉ q.approvedRoot

/-- The roots of a quarantine are two directories, neither of them below the other. Their paths lead
there even if the roots are empty, so they do not lead through an item; and they leave room for the
names of items and tombstones. -/
structure Hold (p : Places) (q : Quarantine) (fs : FileSystem) : Prop where
  apart : Node.Apart p.root p.approved
  rootNames : AreNames p.root
  approvedNames : AreNames p.approved
  rootIsDirectory : fs.isDirectoryAt p.root
  approvedIsDirectory : fs.isDirectoryAt p.approved
  rootLeads : (p.stock fs ⟨[], []⟩).LeadsTo q.root p.root []
  approvedLeads : (p.stock fs ⟨[], []⟩).LeadsTo q.approvedRoot p.approved []
  rootNoZero : 0 ∉ q.root
  approvedNoZero : 0 ∉ q.approvedRoot
  rootRoom : (absoluteText p.root).length + 1 + ItemId.maxItemId ≤ maxPath
  approvedRoom : (absoluteText p.approved).length + 1 + ItemId.maxItemId ≤ maxPath
  tombRoom : q.root.length + 1 + maxTombName ≤ maxPath

variable {p : Places} {q : Quarantine} {fs : FileSystem}

theorem Hold.leads (h : p.Hold q fs) : p.Leads q fs := { h with }

theorem nodeAt?_stock_root (hapart : Node.Apart p.root p.approved)
    (hroot : fs.isDirectoryAt p.root) (s : Stock) :
    (p.stock fs s).nodeAt? p.root = some (.directory s.quarantined) := by
  obtain ⟨es, hes⟩ := FileSystem.isDirectoryAt_iff.mp hroot
  calc (p.stock fs s).nodeAt? p.root
      = (fs.setAt p.root (some (.directory s.quarantined))).nodeAt? p.root :=
        Node.find?_set_of_apart hapart _ _
    _ = some (.directory s.quarantined) := Node.find?_set_self hes _

theorem nodeAt?_stock_approved (hapart : Node.Apart p.root p.approved)
    (happroved : fs.isDirectoryAt p.approved) (s : Stock) :
    (p.stock fs s).nodeAt? p.approved = some (.directory s.approved) := by
  obtain ⟨as, has⟩ := FileSystem.isDirectoryAt_iff.mp happroved
  have hsame := Node.find?_set_of_apart hapart.symm (some (.directory s.quarantined)) fs.root
  exact Node.find?_set_self (hsame.trans has) _

theorem Leads.nodeAt?_root (h : p.Leads q fs) (s : Stock) :
    (p.stock fs s).nodeAt? p.root = some (.directory s.quarantined) :=
  nodeAt?_stock_root h.apart h.rootIsDirectory s

theorem Leads.nodeAt?_approved (h : p.Leads q fs) (s : Stock) :
    (p.stock fs s).nodeAt? p.approved = some (.directory s.approved) :=
  nodeAt?_stock_approved h.apart h.approvedIsDirectory s

/-- Setting one of the roots anew leaves the other as it is. -/
theorem Leads.setAt_root (h : p.Leads q fs) (s : Stock) (es : List (Text × Node)) :
    (p.stock fs s).setAt p.root (some (.directory es)) =
      p.stock fs { s with quarantined := es } := by
  obtain ⟨es', hes⟩ := FileSystem.isDirectoryAt_iff.mp h.rootIsDirectory
  obtain ⟨as', has⟩ := FileSystem.isDirectoryAt_iff.mp h.approvedIsDirectory
  have hroot := Node.find?_set_self hes (.directory s.quarantined)
  have happroved :=
    (Node.find?_set_of_apart h.apart.symm (some (.directory s.quarantined)) fs.root).trans has
  have hset : Node.set (some (.directory es)) p.root (p.stock fs s).root =
      (p.stock fs { s with quarantined := es }).root := by
    simp only [stock, FileSystem.setAt]
    rw [Node.set_comm h.apart hroot happroved, Node.set_set hes]
  exact congrArg (fun root => { fs with root }) hset

theorem Leads.setAt_approved (h : p.Leads q fs) (s : Stock) (as : List (Text × Node)) :
    (p.stock fs s).setAt p.approved (some (.directory as)) =
      p.stock fs { s with approved := as } := by
  obtain ⟨as', has⟩ := FileSystem.isDirectoryAt_iff.mp h.approvedIsDirectory
  have happroved :=
    (Node.find?_set_of_apart h.apart.symm (some (.directory s.quarantined)) fs.root).trans has
  have hset : Node.set (some (.directory as)) p.approved (p.stock fs s).root =
      (p.stock fs { s with approved := as }).root := Node.set_set happroved _ _
  exact congrArg (fun root => { fs with root }) hset

/-- Changing an entry of the quarantine changes its root. -/
theorem Leads.setAt_root_entry (h : p.Leads q fs) (s : Stock) (name : Text) (v : Option Node) :
    (p.stock fs s).setAt (p.root ++ [name]) v =
      p.stock fs { s with quarantined := Node.setEntry name v s.quarantined } := by
  rw [← h.setAt_root s (Node.setEntry name v s.quarantined)]
  exact congrArg (fun root => { fs with root }) (Node.set_concat (h.nodeAt?_root s) name v)

theorem Leads.setAt_approved_entry (h : p.Leads q fs) (s : Stock) (name : Text) (v : Option Node) :
    (p.stock fs s).setAt (p.approved ++ [name]) v =
      p.stock fs { s with approved := Node.setEntry name v s.approved } := by
  rw [← h.setAt_approved s (Node.setEntry name v s.approved)]
  exact congrArg (fun root => { fs with root }) (Node.set_concat (h.nodeAt?_approved s) name v)

/-- Files in which the roots are as they are. -/
theorem stock_self {s : Stock}
    (hroot : fs.nodeAt? p.root = some (.directory s.quarantined))
    (happroved : fs.nodeAt? p.approved = some (.directory s.approved)) : p.stock fs s = fs := by
  have hset : (p.stock fs s).root = fs.root := by
    simp only [stock, FileSystem.setAt]
    rw [Node.set_self hroot, Node.set_self happroved]
  exact congrArg (fun root => { fs with root }) hset

/-! ## Where the paths of the roots lead -/

/-- Whatever stands below the roots, it is more than nothing. -/
theorem Leads.stock_grows (h : p.Leads q fs) (s : Stock) :
    (p.stock fs ⟨[], []⟩).root.Grows (p.stock fs s).root := by
  -- First the one root is filled, then the other.
  have hroot := Node.grows_set (h.nodeAt?_root ⟨[], []⟩) s.quarantined
  have hset := congrArg FileSystem.root (h.setAt_root ⟨[], []⟩ s.quarantined)
  have happroved := Node.grows_set (h.nodeAt?_approved ⟨s.quarantined, []⟩) s.approved
  have hset' := congrArg FileSystem.root (h.setAt_approved ⟨s.quarantined, []⟩ s.approved)
  simp only [FileSystem.setAt] at hset hset'
  rw [hset] at hroot
  rw [hset'] at happroved
  exact hroot.trans happroved

theorem Leads.fits_root (h : p.Leads q fs) : FileSystem.Fits q.root :=
  FileSystem.fits_of_leadsTo h.rootNoZero h.rootLeads

theorem Leads.fits_approved (h : p.Leads q fs) : FileSystem.Fits q.approvedRoot :=
  FileSystem.fits_of_leadsTo h.approvedNoZero h.approvedLeads

theorem Leads.leadsTo_root (h : p.Leads q fs) (s : Stock) :
    (p.stock fs s).LeadsTo q.root p.root s.quarantined :=
  FileSystem.leadsTo_grows h.rootLeads (h.stock_grows s) rfl (h.nodeAt?_root s)

theorem Leads.leadsTo_approved (h : p.Leads q fs) (s : Stock) :
    (p.stock fs s).LeadsTo q.approvedRoot p.approved s.approved :=
  FileSystem.leadsTo_grows h.approvedLeads (h.stock_grows s) rfl
    (h.nodeAt?_approved s)

/-! ## With room for names -/

theorem nodeAt?_root (h : p.Hold q fs) (s : Stock) :
    (p.stock fs s).nodeAt? p.root = some (.directory s.quarantined) := h.leads.nodeAt?_root s

theorem nodeAt?_approved (h : p.Hold q fs) (s : Stock) :
    (p.stock fs s).nodeAt? p.approved = some (.directory s.approved) := h.leads.nodeAt?_approved s

theorem setAt_root_entry (h : p.Hold q fs) (s : Stock) (name : Text) (v : Option Node) :
    (p.stock fs s).setAt (p.root ++ [name]) v =
      p.stock fs { s with quarantined := Node.setEntry name v s.quarantined } :=
  h.leads.setAt_root_entry s name v

end Places

end Quarantine

end Triage
