import Triage.Proofs.FileSystem.Moving
import Triage.Proofs.Quarantine.Stock

/-!
What the steps of a quarantine do to its stock.

The path of an id is that of the entry below the root, whether or not there is one; looking at an
item and making the roots change nothing; a rename takes an entry out of the one root and puts it
into the other, or at a tombstone into the same.
-/

namespace Triage

open Triage.Path (IsName AreNames)
open FileSystem (maxPath absoluteText)

/-! ## Steps at an entry -/

namespace FileSystem

variable {fs : FileSystem} {ns : List Text} {es : List (Text × Node)} {path : Text}

theorem makeDirectories_of_leadsTo (hpath : Fits path) (h : fs.LeadsTo path ns es) :
    fs.makeDirectories path = (fs, .ok ()) := by
  rw [makeDirectories, kind?_of_leadsTo h, if_neg (by simp [hpath.ne_nil])]

end FileSystem

namespace QuarantineStep

variable {fs : FileSystem} {ns : List Text} {es : List (Text × Node)} {root id : Text}

theorem resolvePath_invalid (h : ItemId.isValid id = false) :
    resolvePath fs root id = .error (.invalidId id) := by
  rw [resolvePath, h]
  rfl

/-- The path of an id is that of its entry below the root, which is no link, or not there. -/
theorem resolvePath_entry (hid : ItemId.isValid id) (hs : AreNames ns)
    (hleads : fs.LeadsTo root ns es) (hlink : FileSystem.NoLink (es.lookup id))
    (hlength : (absoluteText (ns ++ [id])).length ≤ maxPath) :
    resolvePath fs root id = .ok (absoluteText (ns ++ [id])) := by
  have hname := ItemId.isName_of_isValid hid
  have hdir := FileSystem.nodeAt?_of_locate hleads
  -- The code rejects a link at the path, so it looks at the entry itself.
  have hlocate := FileSystem.locate_entry false hs hname hdir hlink hlength
  have hdots : (id == Path.dot || id == Path.dotDot || Path.isAbsolute id) = false := by
    simp [hname.ne_dot, hname.ne_dotDot, hname.isAbsolute]
  simp only [resolvePath, hid, Bool.not_true, Bool.false_eq_true, if_false,
    FileSystem.canonical_of_leadsTo hleads, hs.join_absoluteText hname,
    FileSystem.canonical_entry hs hname hdir hlink hlength, hs.relativeElements_concat hname,
    hdots]
  cases hlookup : es.lookup id with
  | none =>
    rw [hlookup] at hlocate
    rw [FileSystem.node_of_missing hlocate]
  | some n =>
    rw [hlookup] at hlocate hlink
    rw [FileSystem.node_of_locate hlocate]
    cases n with
    | link target => exact absurd rfl (hlink target)
    | file | directory | pipe => rfl

theorem perform_makeDirectory_free {path : Text} {place : List Text}
    (h : fs.locate false path = .ok ⟨place, none⟩) :
    (makeDirectory path).perform fs = (fs.setAt place (some Node.empty), .ok ()) := by
  rw [perform, FileSystem.makeDirectory, h]
  rfl

theorem perform_makeDirectory_taken {path : Text} {place : List Text} {n : Node}
    (h : fs.locate false path = .ok ⟨place, some n⟩) :
    (makeDirectory path).perform fs = (fs, .error .fileExists) := by
  rw [perform, FileSystem.makeDirectory, h]
  rfl

theorem perform_rename {source target : Text} {fs' : FileSystem}
    (h : fs.renameNew source target = .ok fs') :
    (rename source target).perform fs = (fs', .ok ()) := by
  rw [perform, h, change]

theorem perform_rename_error {source target : Text} {e : FileError}
    (h : fs.renameNew source target = .error e) :
    (rename source target).perform fs = (fs, .error e) := by
  rw [perform, h, change]

theorem perform_removeTree {path : Text} {fs' : FileSystem} (h : fs.removeTree path = .ok fs') :
    (removeTree path).perform fs = (fs', .ok ()) := by
  rw [perform, h, change]

/-- What it takes for an id to have a path: it is that of its entry below the root, and no link. -/
theorem resolvePath_eq_ok {path : Text} (h : resolvePath fs root id = .ok path) :
    ItemId.isValid id ∧ (∃ base, fs.canonical root = .ok base ∧ path = Path.join base id) ∧
      ∀ target, fs.node false path ≠ .ok (.link target) := by
  simp only [resolvePath] at h
  split at h
  · contradiction
  rename_i hid
  have hvalid : ItemId.isValid id := by simpa using hid
  split at h
  · contradiction
  rename_i base hbase
  split at h
  · contradiction
  split at h
  · split at h
    · contradiction
    split at h
    · contradiction
    · rename_i hlink
      obtain rfl := Except.ok.inj h
      exact ⟨hvalid, ⟨base, hbase, rfl⟩, hlink⟩
  · contradiction

/-- If there is a path of an id, it is that of the entry. -/
theorem path_of_resolvePath {path : Text} (hleads : fs.LeadsTo root ns es)
    (h : resolvePath fs root id = .ok path) : path = Path.join (absoluteText ns) id := by
  obtain ⟨-, ⟨base, hbase, rfl⟩, -⟩ := resolvePath_eq_ok h
  rw [FileSystem.canonical_of_leadsTo hleads] at hbase
  rw [← Except.ok.inj hbase]

end QuarantineStep

/-! ## Steps at the entries of two roots -/

namespace Quarantine.Places.Leads

variable {p : Places} {q : Quarantine} {fs : FileSystem} {id name : Text} {n : Node}
variable (h : p.Leads q fs) (s : Stock)

include h

theorem locate_root (hname : IsName name)
    (hlength : (absoluteText (p.root ++ [name])).length ≤ maxPath) :
    (p.stock fs s).locate false (absoluteText (p.root ++ [name])) =
      .ok ⟨p.root ++ [name], s.quarantined.lookup name⟩ :=
  FileSystem.locate_entry_last h.rootNames hname (h.nodeAt?_root s) hlength

theorem locate_approved (hname : IsName name)
    (hlength : (absoluteText (p.approved ++ [name])).length ≤ maxPath) :
    (p.stock fs s).locate false (absoluteText (p.approved ++ [name])) =
      .ok ⟨p.approved ++ [name], s.approved.lookup name⟩ :=
  FileSystem.locate_entry_last h.approvedNames hname (h.nodeAt?_approved s) hlength

/-- A name put after the path of the quarantine leads to its entry. -/
theorem locate_join_root (hname : IsName name)
    (hlength : (Path.join q.root name).length ≤ maxPath) :
    (p.stock fs s).locate false (Path.join q.root name) =
      .ok ⟨p.root ++ [name], s.quarantined.lookup name⟩ :=
  FileSystem.locate_join_last h.fits_root (h.leadsTo_root s) hname hlength

theorem resolvePath_root (hid : ItemId.isValid id)
    (hentry : ∀ n, s.quarantined.lookup id = some n → ∃ es, n = .directory es)
    (hlength : (absoluteText (p.root ++ [id])).length ≤ maxPath) :
    QuarantineStep.resolvePath (p.stock fs s) q.root id = .ok (absoluteText (p.root ++ [id])) :=
  QuarantineStep.resolvePath_entry hid h.rootNames (h.leadsTo_root s)
    (FileSystem.noLink_of_directory hentry) hlength

theorem resolvePath_approved (hid : ItemId.isValid id)
    (hentry : ∀ n, s.approved.lookup id = some n → ∃ es, n = .directory es)
    (hlength : (absoluteText (p.approved ++ [id])).length ≤ maxPath) :
    QuarantineStep.resolvePath (p.stock fs s) q.approvedRoot id =
      .ok (absoluteText (p.approved ++ [id])) :=
  QuarantineStep.resolvePath_entry hid h.approvedNames (h.leadsTo_approved s)
    (FileSystem.noLink_of_directory hentry) hlength

/-- A directory can be opened. -/
theorem openPath_root {es : List (Text × Node)} (hname : IsName name)
    (hentry : s.quarantined.lookup name = some (.directory es))
    (hlength : (absoluteText (p.root ++ [name])).length ≤ maxPath) :
    QuarantineStep.openPath (p.stock fs s) (absoluteText (p.root ++ [name])) = .ok () := by
  have hlocate := h.locate_root s hname hlength
  rw [hentry] at hlocate
  rw [QuarantineStep.openPath, FileSystem.node_of_locate hlocate]

/-- An entry can be moved to a free place below the approved items. -/
theorem renameNew_approved (hname : IsName name)
    (hroot : (absoluteText (p.root ++ [name])).length ≤ maxPath)
    (happroved : (absoluteText (p.approved ++ [name])).length ≤ maxPath)
    (hentry : s.quarantined.lookup name = some n) (hfree : s.approved.lookup name = none) :
    (p.stock fs s).renameNew (absoluteText (p.root ++ [name]))
        (absoluteText (p.approved ++ [name])) =
      .ok (p.stock fs
        ⟨Node.setEntry name none s.quarantined, Node.setEntry name (some n) s.approved⟩) := by
  have hsource := h.locate_root s hname hroot
  have htarget := h.locate_approved s hname happroved
  rw [hentry] at hsource
  rw [hfree] at htarget
  have happart := ((h.apart.append_left [name]).symm.append_left [name]).2
  rw [FileSystem.renameNew_of_locate hsource htarget happart, h.setAt_root_entry,
    h.setAt_approved_entry]

/-- An entry can be given another name that is free. -/
theorem renameNew_root {other : Text} (hname : IsName name) (hother : IsName other)
    (hne : other ≠ name) (hroot : (absoluteText (p.root ++ [name])).length ≤ maxPath)
    (hlength : (Path.join q.root other).length ≤ maxPath)
    (hentry : s.quarantined.lookup name = some n) (hfree : s.quarantined.lookup other = none) :
    (p.stock fs s).renameNew (absoluteText (p.root ++ [name])) (Path.join q.root other) =
      .ok (p.stock fs { s with
        quarantined := Node.setEntry other (some n) (Node.setEntry name none s.quarantined) }) := by
  have hsource := h.locate_root s hname hroot
  have htarget := h.locate_join_root s hother hlength
  rw [hentry] at hsource
  rw [hfree] at htarget
  have hinside : ¬p.root ++ [name] <+: p.root ++ [other] := by
    intro hprefix
    rw [List.prefix_append_right_inj, List.cons_prefix_cons] at hprefix
    exact hne hprefix.1.symm
  rw [FileSystem.renameNew_of_locate hsource htarget hinside, h.setAt_root_entry,
    h.setAt_root_entry]

theorem removeTree_root (hname : IsName name) (hlength : (Path.join q.root name).length ≤ maxPath)
    (hentry : s.quarantined.lookup name = some n) :
    (p.stock fs s).removeTree (Path.join q.root name) =
      .ok (p.stock fs { s with quarantined := Node.setEntry name none s.quarantined }) := by
  have hlocate := h.locate_join_root s hname hlength
  rw [hentry] at hlocate
  rw [FileSystem.removeTree_of_locate hlocate, h.setAt_root_entry]

/-- Making the roots changes nothing. -/
theorem makeRoot_root :
    (QuarantineStep.makeRoot q.root).perform (p.stock fs s) = (p.stock fs s, .ok ()) :=
  FileSystem.makeDirectories_of_leadsTo h.fits_root (h.leadsTo_root s)

theorem makeRoot_approved :
    (QuarantineStep.makeRoot q.approvedRoot).perform (p.stock fs s) = (p.stock fs s, .ok ()) :=
  FileSystem.makeDirectories_of_leadsTo h.fits_approved (h.leadsTo_approved s)

end Quarantine.Places.Leads

/-! ## Steps on the stock -/

namespace Quarantine

variable {p : Places} {q : Quarantine} {fs : FileSystem} {s : Stock} {id : Text} {n : Node}

theorem Stock.Sound.isItem_quarantined (hs : s.Sound) (h : s.quarantined.lookup id = some n) :
    IsItem (id, n) := hs.items _ (List.mem_append_left _ (Node.mem_of_lookup h))

theorem Stock.Sound.isItem_approved (hs : s.Sound) (h : s.approved.lookup id = some n) :
    IsItem (id, n) := hs.items _ (List.mem_append_right _ (Node.mem_of_lookup h))

theorem noLink_of_isItem {entry : Option Node} (h : ∀ n, entry = some n → IsItem (id, n)) :
    FileSystem.NoLink entry :=
  FileSystem.noLink_of_directory fun n hn => (h n hn).isDirectory

theorem length_entry_le {ns : List Text} (hs : AreNames ns) (hname : IsName id)
    (hlength : id.length ≤ ItemId.maxItemId)
    (hroom : (absoluteText ns).length + 1 + ItemId.maxItemId ≤ maxPath) :
    (absoluteText (ns ++ [id])).length ≤ maxPath := by
  have hjoin := Path.length_join_le (absoluteText ns) hname
  rw [hs.join_absoluteText hname] at hjoin
  omega

theorem Stock.Sound.lookup_tombName (hs : s.Sound) (id mark : Text) :
    s.quarantined.lookup (tombName id mark) = none := by
  cases hlookup : s.quarantined.lookup (tombName id mark) with
  | none => rfl
  | some n =>
    have hitem := (hs.isItem_quarantined hlookup).isValid
    rw [not_isValid_tombName] at hitem
    contradiction

theorem tombName_ne (hid : ItemId.isValid id) (mark : Text) : tombName id mark ≠ id := by
  intro heq
  rw [← heq, not_isValid_tombName] at hid
  contradiction

/-- A tombstone is not inside of the item. -/
theorem tombName_not_inside (hid : ItemId.isValid id) (ns : List Text) (mark : Text) :
    ¬ns ++ [id] <+: ns ++ [tombName id mark] := by
  intro hprefix
  rw [List.prefix_append_right_inj, List.cons_prefix_cons] at hprefix
  exact tombName_ne hid mark hprefix.1.symm

variable (h : p.Hold q fs) (hs : s.Sound) (hid : ItemId.isValid id)
  (hlength : id.length ≤ ItemId.maxItemId)

include h hs hid hlength

theorem resolvePath_root : QuarantineStep.resolvePath (p.stock fs s) q.root id =
    .ok (absoluteText (p.root ++ [id])) :=
  h.leads.resolvePath_root s hid (fun _ hn => (hs.isItem_quarantined hn).isDirectory)
    (length_entry_le h.rootNames (ItemId.isName_of_isValid hid) hlength h.rootRoom)

theorem resolvePath_approved : QuarantineStep.resolvePath (p.stock fs s) q.approvedRoot id =
    .ok (absoluteText (p.approved ++ [id])) :=
  h.leads.resolvePath_approved s hid (fun _ hn => (hs.isItem_approved hn).isDirectory)
    (length_entry_le h.approvedNames (ItemId.isName_of_isValid hid) hlength h.approvedRoom)

theorem locate_quarantined : (p.stock fs s).locate false (absoluteText (p.root ++ [id])) =
    .ok ⟨p.root ++ [id], s.quarantined.lookup id⟩ :=
  FileSystem.locate_entry false h.rootNames (ItemId.isName_of_isValid hid) (Places.nodeAt?_root h s)
    (noLink_of_isItem fun _ => hs.isItem_quarantined)
    (length_entry_le h.rootNames (ItemId.isName_of_isValid hid) hlength h.rootRoom)

theorem locate_approved : (p.stock fs s).locate false (absoluteText (p.approved ++ [id])) =
    .ok ⟨p.approved ++ [id], s.approved.lookup id⟩ :=
  FileSystem.locate_entry false h.approvedNames (ItemId.isName_of_isValid hid)
    (Places.nodeAt?_approved h s) (noLink_of_isItem fun _ => hs.isItem_approved)
    (length_entry_le h.approvedNames (ItemId.isName_of_isValid hid) hlength h.approvedRoom)

/-- An item can be opened. -/
theorem openPath_item (hitem : s.quarantined.lookup id = some n) :
    QuarantineStep.openPath (p.stock fs s) (absoluteText (p.root ++ [id])) = .ok () := by
  obtain ⟨es, rfl⟩ := (hs.isItem_quarantined hitem).isDirectory
  exact h.leads.openPath_root s (ItemId.isName_of_isValid hid) hitem
    (length_entry_le h.rootNames (ItemId.isName_of_isValid hid) hlength h.rootRoom)

omit hs in
/-- An item that is not approved yet can be moved to the approved ones. -/
theorem renameNew_approved (hitem : s.quarantined.lookup id = some n)
    (hfree : s.approved.lookup id = none) :
    (p.stock fs s).renameNew (absoluteText (p.root ++ [id])) (absoluteText (p.approved ++ [id])) =
      .ok (p.stock fs
        ⟨Node.setEntry id none s.quarantined, Node.setEntry id (some n) s.approved⟩) :=
  h.leads.renameNew_approved s (ItemId.isName_of_isValid hid)
    (length_entry_le h.rootNames (ItemId.isName_of_isValid hid) hlength h.rootRoom)
    (length_entry_le h.approvedNames (ItemId.isName_of_isValid hid) hlength h.approvedRoom)
    hitem hfree

omit hs in
theorem length_tombstone_le (process count : UInt32) :
    (q.tombstone id (mark process count)).length ≤ maxPath := by
  obtain ⟨hname, hshort⟩ := isName_tombName hid hlength process count
  have hjoin := Path.length_join_le q.root hname
  have hroom := h.tombRoom
  rw [tombstone_eq]
  exact Nat.le_trans hjoin (by omega)

/-- An item can be renamed to its tombstone. -/
theorem renameNew_tombstone (hitem : s.quarantined.lookup id = some n) (process count : UInt32) :
    (p.stock fs s).renameNew (absoluteText (p.root ++ [id]))
        (q.tombstone id (mark process count)) =
      .ok (p.stock fs { s with
        quarantined := Node.setEntry (tombName id (mark process count)) (some n)
          (Node.setEntry id none s.quarantined) }) :=
  h.leads.renameNew_root s (ItemId.isName_of_isValid hid)
    (isName_tombName hid hlength process count).1 (tombName_ne hid _)
    (length_entry_le h.rootNames (ItemId.isName_of_isValid hid) hlength h.rootRoom)
    (length_tombstone_le h hid hlength process count) hitem (hs.lookup_tombName _ _)

/-- Deleting a tombstone leaves what stood beside it. -/
theorem removeTree_tombstone (n : Node) (process count : UInt32) :
    (p.stock fs { s with
        quarantined := Node.setEntry (tombName id (mark process count)) (some n)
          (Node.setEntry id none s.quarantined) }).removeTree
            (q.tombstone id (mark process count)) =
      .ok (p.stock fs { s with quarantined := Node.setEntry id none s.quarantined }) := by
  have hne := tombName_ne hid (mark process count)
  have hfree := (Node.lookup_setEntry_of_ne hne (v := none)).trans
    (hs.lookup_tombName id (mark process count))
  refine (h.leads.removeTree_root _ (isName_tombName hid hlength process count).1
    (length_tombstone_le h hid hlength process count)
    (Node.lookup_setEntry_some _ n _)).trans ?_
  simp only [Node.setEntry_setEntry, Node.setEntry_none_of_lookup hfree]

end Quarantine

end Triage
