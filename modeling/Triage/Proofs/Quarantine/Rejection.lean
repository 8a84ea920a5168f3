import Triage.Proofs.Quarantine.Containment

/-!
When a rejection leaves nothing of its item.

A rejection renames its item to a tombstone and removes that. The name of the tombstone is longer
than the id, so there are ids that are valid, and may be those of items, whose tombstones the system
refuses. `reject_removes_iff` says which items can be rejected: those whose path and whose tombstone
the system takes, if the path of the root does not run through the item.
-/

namespace Triage

open Triage.Path (AreNames)
open FileSystem (maxPath maxName absoluteText AgreeAt Fits)

namespace Quarantine

variable {q : Quarantine} {fs fs' buried : FileSystem} {ns : List Text} {id source : Text}
variable {es content : List (Text × Node)} {process count : UInt32}

/-- The root of the quarantine is the directory at a place, and the entry of the id in it is a
directory, whatever that holds. Nothing is said of the approved items. -/
structure HoldsItem (q : Quarantine) (fs : FileSystem) (ns : List Text) (es : List (Text × Node))
    (id : Text) (content : List (Text × Node)) : Prop where
  unambiguous : fs.root.Unambiguous
  names : AreNames ns
  leads : fs.LeadsTo q.root ns es
  isValid : ItemId.isValid id
  item : es.lookup id = some (.directory content)

/-- The system takes the paths that a rejection uses, and the path of the root leads there also when
the item is gone. -/
structure Clears (q : Quarantine) (fs : FileSystem) (ns : List Text) (es : List (Text × Node))
    (id mark : Text) : Prop where
  noZero : 0 ∉ q.root
  item : (absoluteText (ns ++ [id])).length ≤ maxPath
  name : (tombName id mark).length ≤ maxName
  tombstone : (q.tombstone id mark).length ≤ maxPath
  without : (fs.setAt (ns ++ [id]) none).LeadsTo q.root ns (Node.setEntry id none es)

/-! ## The item and its tombstone -/

namespace HoldsItem

variable (h : q.HoldsItem fs ns es id content)

include h

theorem isName : Path.IsName id := ItemId.isName_of_isValid h.isValid

theorem nodeAt?_root : fs.nodeAt? ns = some (.directory es) := FileSystem.nodeAt?_of_locate h.leads

theorem nodeAt?_item : fs.nodeAt? (ns ++ [id]) = some (.directory content) := by
  rw [FileSystem.nodeAt?_concat h.nodeAt?_root, h.item]

theorem zero_not_mem_tombstone (hzero : 0 ∉ q.root) (process count : UInt32) :
    0 ∉ q.tombstone id (mark process count) :=
  (isPiece_tombName h.isValid process count).not_mem_join (by decide) hzero
    (zero_not_mem_tombName h.isValid process count)

theorem locate_item (hlength : (absoluteText (ns ++ [id])).length ≤ maxPath) :
    fs.locate false (absoluteText (ns ++ [id])) = .ok ⟨ns ++ [id], some (.directory content)⟩ := by
  rw [FileSystem.locate_entry_last h.names h.isName h.nodeAt?_root hlength, h.item]

theorem locate_tombstone (hfree : es.lookup (tombName id (mark process count)) = none)
    (hclears : q.Clears fs ns es id (mark process count)) :
    fs.locate false (q.tombstone id (mark process count)) =
      .ok ⟨ns ++ [tombName id (mark process count)], none⟩ := by
  rw [← hfree]
  exact FileSystem.locate_join_last (FileSystem.fits_of_leadsTo hclears.noZero h.leads) h.leads
    (isName_tombName_of_length h.isValid hclears.name) hclears.tombstone

theorem isFree_tombstone {mark : Text} (hfree : es.lookup (tombName id mark) = none) :
    fs.IsFree (ns ++ [tombName id mark]) :=
  ⟨ns, tombName id mark, es, rfl, h.nodeAt?_root, hfree⟩

/-- When the item is gone, its tombstone is as free as before. -/
theorem isFree_tombstone_without {mark : Text} (hfree : es.lookup (tombName id mark) = none) :
    (fs.setAt (ns ++ [id]) none).IsFree (ns ++ [tombName id mark]) :=
  ⟨ns, tombName id mark, Node.setEntry id none es, rfl,
    FileSystem.nodeAt?_setAt_entry h.nodeAt?_root id none,
    (Node.lookup_setEntry_of_ne (tombName_ne h.isValid mark)).trans hfree⟩

/-- The item is gone when it was taken from the root. -/
theorem nodeAt?_without : (fs.setAt (ns ++ [id]) none).nodeAt? (ns ++ [id]) = none := by
  rw [FileSystem.nodeAt?_concat (FileSystem.nodeAt?_setAt_entry h.nodeAt?_root id none)]
  exact (h.unambiguous ns es h.nodeAt?_root).lookup_setEntry_none id

/-! ## A rejection that has room -/

/-- A rejection finds its item and can open it. -/
theorem runs_toReject (hlength : (absoluteText (ns ++ [id])).length ≤ maxPath) :
    Runs (q.toReject id) fs fs (.ok (absoluteText (ns ++ [id]))) := by
  have hlink : FileSystem.NoLink (es.lookup id) :=
    FileSystem.noLink_of_directory fun n hn => ⟨content, Option.some.inj (hn.symm.trans h.item)⟩
  have hpath := QuarantineStep.resolvePath_entry h.isValid h.names h.leads hlink hlength
  exact (runs_resolve hpath).bind
    ((runs_exists (FileSystem.entryExists_of_locate (h.locate_item hlength))).bind (runs_pure _ _))

theorem openPath_item (hlength : (absoluteText (ns ++ [id])).length ≤ maxPath) :
    QuarantineStep.openPath fs (absoluteText (ns ++ [id])) = .ok () := by
  rw [QuarantineStep.openPath, FileSystem.node_of_locate (h.locate_item hlength)]

/-- The path of the tombstone leads to it after the item was renamed to it. -/
theorem removeTree_tombstone (hfree : es.lookup (tombName id (mark process count)) = none)
    (hclears : q.Clears fs ns es id (mark process count)) :
    ((fs.setAt (ns ++ [id]) none).setAt (ns ++ [tombName id (mark process count)])
        (some (.directory content))).removeTree (q.tombstone id (mark process count)) =
      .ok (fs.setAt (ns ++ [id]) none) := by
  have hplace := h.isFree_tombstone_without hfree
  have hroot := FileSystem.nodeAt?_setAt_entry
    (FileSystem.nodeAt?_of_locate hclears.without) (tombName id (mark process count))
    (some (.directory content))
  have hleads := FileSystem.leadsTo_grows hclears.without
    (hplace.grows (some (.directory content))) rfl hroot
  have hlocate := FileSystem.locate_join_last
    (FileSystem.fits_of_leadsTo hclears.noZero h.leads) hleads
    (isName_tombName_of_length h.isValid hclears.name) hclears.tombstone
  rw [Node.lookup_setEntry_some] at hlocate
  rw [tombstone_eq, FileSystem.removeTree_of_locate hlocate, hplace.setAt_setAt, hplace.setAt_none]

theorem reject_of_clears (hfree : es.lookup (tombName id (mark process count)) = none)
    (hclears : q.Clears fs ns es id (mark process count)) :
    Runs (q.reject (mark process count) id) fs (fs.setAt (ns ++ [id]) none) (.ok ()) := by
  have hrename := FileSystem.renameNew_of_locate (h.locate_item hclears.item)
    (h.locate_tombstone hfree hclears) (tombName_not_inside h.isValid ns _)
  refine (h.runs_toReject hclears.item).bind ?_
  refine (runs_moveItem (h.openPath_item hclears.item) hrename).bind ?_
  exact runs_must (runs_ask
    (QuarantineStep.perform_removeTree (h.removeTree_tombstone hfree hclears)))

/-- If the system refuses the tombstone, the item stays. -/
theorem reject_tooLong (hzero : 0 ∉ q.root) (hlength : (absoluteText (ns ++ [id])).length ≤ maxPath)
    (hlong : maxName < (tombName id (mark process count)).length ∨
      maxPath < (q.tombstone id (mark process count)).length) :
    Runs (q.reject (mark process count) id) fs fs (.error (.cannotReject id .nameTooLong)) := by
  have htarget : fs.locate false (q.tombstone id (mark process count)) = .error .nameTooLong :=
    FileSystem.locate_join_tooLong (FileSystem.fits_of_leadsTo hzero h.leads) h.leads
      (isPiece_tombName h.isValid process count) (zero_not_mem_tombName h.isValid process count)
      hlong
  refine (h.runs_toReject hlength).bind (Runs.bind_error ?_)
  exact runs_moveItem_error (h.openPath_item hlength)
    (FileSystem.renameNew_of_error (h.locate_item hlength) htarget)

/-! ## A rejection that leaves nothing had room -/

/-- A zero byte ends the path of the root; then what is put after it does not count, and something
stands where the tombstone is to go. -/
theorem noZero_of_moved (hmoved : fs.renameNew source (q.tombstone id (mark process count)) =
    .ok buried) : 0 ∉ q.root := by
  intro hzero
  obtain ⟨-, -, new, -, htarget, -⟩ := FileSystem.renameNew_eq_ok hmoved
  have hrelative := (isPiece_tombName h.isValid process count).isAbsolute
  have hmissing : fs.locate false q.root = .ok ⟨new, none⟩ := by
    rw [← htarget, tombstone_eq, FileSystem.locate, FileSystem.locate,
      Path.before_zero_join hrelative hzero]
  have hleads := (FileSystem.locate_missing_last hmissing).symm.trans h.leads
  simp at hleads

/-- A rejection that has moved its item and left no tombstone had room for both. -/
theorem clears_of_buries (hfree : es.lookup (tombName id (mark process count)) = none)
    (hburies : Buries q fs id (mark process count) source buried)
    (hremove : buried.removeTree (q.tombstone id (mark process count)) = .ok fs')
    (hgone : fs'.nodeAt? (ns ++ [tombName id (mark process count)]) = none) :
    q.Clears fs ns es id (mark process count) := by
  have hnoZero := h.noZero_of_moved hburies.moved
  have hroot := FileSystem.fits_of_leadsTo hnoZero h.leads
  obtain rfl : source = absoluteText (ns ++ [id]) := by
    rw [QuarantineStep.path_of_resolvePath h.leads hburies.path,
      h.names.join_absoluteText h.isName]
  obtain ⟨old, n, new, hsource, htarget, hinside, rfl⟩ := FileSystem.renameNew_eq_ok hburies.moved
  -- The item and its tombstone were found, so the system takes their paths.
  have hitem := (FileSystem.fits_of_locate
    (h.names.concat h.isName).zero_not_mem_absoluteText hsource).length_le
  have hname := isName_of_locate_tombstone h.isValid hroot htarget
  have htomb := (FileSystem.fits_of_locate
    (h.zero_not_mem_tombstone hnoZero process count) htarget).length_le
  obtain ⟨rfl, rfl⟩ : old = ns ++ [id] ∧ n = .directory content := by
    simpa using hsource.symm.trans (h.locate_item hitem)
  obtain rfl : new = ns ++ [tombName id (mark process count)] := by
    have hentry := FileSystem.locate_join_last hroot h.leads hname htomb
    exact (Location.mk.inj (Except.ok.inj (htarget.symm.trans hentry))).1
  rcases FileSystem.removeTree_eq_ok hremove with rfl | ⟨place, m, hplace, -⟩
  · rw [FileSystem.nodeAt?_moved (h.isFree_tombstone hfree) hinside] at hgone
    contradiction
  · -- The tombstone was found where it was put, so the path of the root leads there still.
    obtain rfl := FileSystem.eq_of_locate_renamed h.unambiguous hsource htarget hinside hplace
    obtain ⟨ns', es', hleads, hfound⟩ := FileSystem.leadsTo_of_locate_join hroot hname hplace
    obtain rfl : ns = ns' := (List.append_inj' (Location.mk.inj hfound).1 rfl).1
    obtain ⟨es'', hwithout⟩ := FileSystem.leadsTo_without h.unambiguous h.nodeAt?_item
      (h.isFree_tombstone hfree) hinside h.leads hleads
    obtain rfl : Node.setEntry id none es = es'' := by
      simpa using (FileSystem.nodeAt?_setAt_entry h.nodeAt?_root id none).symm.trans
        (FileSystem.nodeAt?_of_locate hwithout)
    exact ⟨hnoZero, hitem, hname.length_le, htomb, hwithout⟩

end HoldsItem

/-! ## Rejections -/

/-- **A rejection leaves neither its item nor a tombstone** exactly if it has room, and the path of
the root does not run through the item. Then the item is taken from the root and all else is as it
was. -/
theorem reject_removes_iff (h : q.HoldsItem fs ns es id content)
    (hfree : es.lookup (tombName id (mark process count)) = none) :
    ((∃ fs', (Call.reject id process count).perform q fs = (fs', .ok ()) ∧
        fs'.nodeAt? (ns ++ [id]) = none ∧
        fs'.nodeAt? (ns ++ [tombName id (mark process count)]) = none) ↔
      q.Clears fs ns es id (mark process count)) ∧
    (q.Clears fs ns es id (mark process count) →
      (Call.reject id process count).perform q fs = (fs.setAt (ns ++ [id]) none, .ok ())) ∧
    (fs.setAt (ns ++ [id]) none).nodeAt? ns = some (.directory (Node.setEntry id none es)) ∧
    (fs.setAt (ns ++ [id]) none).nodeAt? (ns ++ [id]) = none ∧
    ∀ place, ¬ns ++ [id] <+: place → AgreeAt fs (fs.setAt (ns ++ [id]) none) place := by
  have hdone : q.Clears fs ns es id (mark process count) →
      (Call.reject id process count).perform q fs = (fs.setAt (ns ++ [id]) none, .ok ()) :=
    h.reject_of_clears hfree
  have hroot := FileSystem.nodeAt?_setAt_entry h.nodeAt?_root id none
  refine ⟨⟨?_, fun hclears => ?_⟩, hdone, hroot, h.nodeAt?_without,
    fun place hplace => FileSystem.agreeAt_setAt hplace fs none⟩
  · rintro ⟨fs', hperform, -, hgone⟩
    have hrun : Procedure.run fs (q.reject (mark process count) id).run = (fs', .ok ()) := hperform
    have hends := Procedure.mayEnd_run (q.reject (mark process count) id).run fs
    rw [hrun] at hends
    obtain ⟨source, buried, hburies, hremove⟩ := ensures_reject_moves (mark process count) id fs'
      (.ok ()) hends
    exact h.clears_of_buries hfree hburies hremove hgone
  · exact ⟨_, hdone hclears, h.nodeAt?_without, (h.isFree_tombstone_without hfree).nodeAt?⟩

/-- Links in an item do not matter. -/
theorem linkedItems_holdsItem : HoldsItem ⟨"q".ascii, "p".ascii⟩ linkedItems ["q".ascii]
    [("a".ascii, .directory [("l".ascii, .link "../../s".ascii)]), ("b".ascii, .link "a".ascii)]
    "a".ascii [("l".ascii, .link "../../s".ascii)] where
  unambiguous := linkedItems_unambiguous
  names := areNames_singleton isName_q
  leads := leadsTo_name isName_q rfl rfl
  isValid := by decide
  item := rfl

theorem reject_removes_iff_linkedItems :
    (Call.reject "a".ascii 1 0).perform ⟨"q".ascii, "p".ascii⟩ linkedItems =
      (linkedItems.setAt ["q".ascii, "a".ascii] none, .ok ()) := by
  refine (reject_removes_iff linkedItems_holdsItem rfl).2.1 ?_
  exact
    { noZero := by decide
      item := by decide
      name := by decide
      tombstone := by decide
      without := leadsTo_name isName_q rfl rfl }

/-! ## An item whose tombstone is too long -/

def longId : Text := List.replicate 250 'a'.ascii

def longItem : FileSystem :=
  ⟨.directory [("q".ascii, .directory [(longId, Node.empty)]), ("p".ascii, Node.empty)], []⟩

theorem longItem_holdsItem :
    HoldsItem ⟨"q".ascii, "p".ascii⟩ longItem ["q".ascii] [(longId, Node.empty)] longId [] where
  unambiguous := by
    have hleaf : Node.empty.Unambiguous :=
      Node.unambiguous_of_entries List.nodup_nil (List.forall_mem_nil _)
    have hroot : (Node.directory [(longId, Node.empty)]).Unambiguous :=
      Node.unambiguous_of_entries (List.nodup_singleton _) (List.forall_mem_singleton.mpr hleaf)
    refine Node.unambiguous_of_entries ?_ (List.forall_mem_cons.mpr ⟨hroot, ?_⟩)
    · simp [Node.UniqueNames, Node.entries, longItem, String.ascii]
    · exact List.forall_mem_singleton.mpr hleaf
  names := areNames_singleton isName_q
  leads := leadsTo_name isName_q rfl rfl
  isValid := by
    have hbytes : longId.all ItemId.isIdByte = true := List.all_eq_true.mpr fun b hb => by
      rw [List.eq_of_mem_replicate hb]
      decide
    rw [ItemId.isValid, hbytes, longId, List.length_replicate]
    rfl
  item := List.lookup_cons_self

/-- An item of a valid id whose tombstone has a name that is too long cannot be rejected, though
there is no tombstone yet. -/
theorem longItem_stays :
    HoldsItem ⟨"q".ascii, "p".ascii⟩ longItem ["q".ascii] [(longId, Node.empty)] longId [] ∧
    (∀ id mark, [(longId, Node.empty)].lookup (tombName id mark) = none) ∧
    (Call.reject longId 1 0).perform ⟨"q".ascii, "p".ascii⟩ longItem =
      (longItem, .error (.cannotReject longId .nameTooLong)) := by
  refine ⟨longItem_holdsItem, fun id mark => ?_,
    longItem_holdsItem.reject_tooLong (by decide) ?_ (Or.inl ?_)⟩
  · rw [Node.lookup_eq_none_iff]
    intro hmem
    have htomb := not_isValid_tombName id mark
    rw [List.mem_singleton.mp hmem, longItem_holdsItem.isValid] at htomb
    contradiction
  · have hlength := Path.length_absoluteText_concat_le ["q".ascii] longId
    have hroot : (absoluteText ["q".ascii]).length = 2 := rfl
    rw [longId, List.length_replicate, hroot] at hlength
    exact Nat.le_trans hlength (by decide)
  · rw [length_tombName, longId, List.length_replicate, maxName]
    omega

end Quarantine

end Triage
