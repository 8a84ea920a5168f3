import Triage.Proofs.Quarantine.Steps

/-!
Roots that stay where they are.

The store keeps the paths of its roots as they were given and lets the system follow them at each
step. They may run through items, and the one root may stand in the other. `Places.Steady` says that
whatever ids are claimed, given up and approved (`Places.Shifted`), both paths lead to the same two
directories. As long as that is so, each step on an id finds and changes the entries of the id below
the two roots, and `Places.Keeps` says what of the entries of all ids it keeps.
-/

namespace Triage

open Triage.Path (IsName AreNames)
open FileSystem (maxPath absoluteText)

/-- Something stands at a place. -/
def FileSystem.Occupied (fs : FileSystem) (ns : List Text) : Prop := ∃ n, fs.nodeAt? ns = some n

theorem FileSystem.not_occupied_iff {fs : FileSystem} {ns : List Text} :
    ¬fs.Occupied ns ↔ fs.nodeAt? ns = none := by
  simp [Occupied, Option.eq_none_iff_forall_ne_some]

/-- A look at a name behind the path of a directory tells whether there is an entry of that name, if
the system takes the path. -/
theorem FileSystem.entryExists_join {fs : FileSystem} {path name : Text} {ns : List Text}
    {es : List (Text × Node)} (hzero : 0 ∉ path) (h : fs.LeadsTo path ns es) (hname : IsName name)
    (hroom : (Path.join path name).length ≤ maxPath) :
    fs.entryExists (Path.join path name) = true ↔ fs.Occupied (ns ++ [name]) := by
  have hlocate := locate_join_last (fits_of_leadsTo hzero h) h hname hroom
  rw [entryExists_of_locate hlocate, Occupied, nodeAt?_concat (nodeAt?_of_locate h),
    Option.isSome_iff_exists]

namespace Quarantine

variable {p : Places} {q : Quarantine} {fs fs' fs'' : FileSystem} {id name path : Text} {n : Node}

/-! ## Changes of entries -/

/-- Ids were claimed, given up and approved, one after the other. -/
inductive Places.Shifted (p : Places) (fs : FileSystem) : FileSystem → Prop where
  | nothing : Shifted p fs fs
  | claimed {fs' : FileSystem} {id : Text} (before : Shifted p fs fs') (hid : ItemId.isValid id)
    (hfree : fs'.nodeAt? (p.root ++ [id]) = none) :
    Shifted p fs (fs'.setAt (p.root ++ [id]) (some Node.empty))
  | givenUp {fs' : FileSystem} {id : Text} (before : Shifted p fs fs') (hid : ItemId.isValid id)
    (hempty : fs'.nodeAt? (p.root ++ [id]) = some Node.empty) :
    Shifted p fs (fs'.setAt (p.root ++ [id]) none)
  | approved {fs' : FileSystem} {id : Text} {n : Node} (before : Shifted p fs fs')
    (hid : ItemId.isValid id) (hitem : fs'.nodeAt? (p.root ++ [id]) = some n)
    (hfree : fs'.nodeAt? (p.approved ++ [id]) = none)
    (hinside : ¬p.root ++ [id] <+: p.approved ++ [id]) :
    Shifted p fs ((fs'.setAt (p.root ++ [id]) none).setAt (p.approved ++ [id]) (some n))

theorem Places.Shifted.trans (h : p.Shifted fs fs') (h' : p.Shifted fs' fs'') :
    p.Shifted fs fs'' := by
  induction h' with
  | nothing => exact h
  | claimed _ hid hfree ih => exact .claimed ih hid hfree
  | givenUp _ hid hempty ih => exact .givenUp ih hid hempty
  | approved _ hid hitem hfree hinside ih => exact .approved ih hid hitem hfree hinside

/-- The paths of the roots lead to two directories, whatever ids are claimed, given up and
approved. -/
structure Places.Steady (p : Places) (q : Quarantine) (fs : FileSystem) : Prop where
  distinct : p.root ≠ p.approved
  rootNames : AreNames p.root
  approvedNames : AreNames p.approved
  noZero : 0 ∉ q.approvedRoot
  rootLeads : ∀ fs', p.Shifted fs fs' → ∃ es, fs'.LeadsTo q.root p.root es
  approvedLeads : ∀ fs', p.Shifted fs fs' → ∃ es, fs'.LeadsTo q.approvedRoot p.approved es

/-- No entry goes away below the approved root, and below the root of the quarantine only those that
stand below the approved root then. -/
structure Places.Keeps (p : Places) (fs fs' : FileSystem) : Prop where
  approved : ∀ name, fs.Occupied (p.approved ++ [name]) → fs'.Occupied (p.approved ++ [name])
  root : ∀ name, fs.Occupied (p.root ++ [name]) →
    fs'.Occupied (p.root ++ [name]) ∨ fs'.Occupied (p.approved ++ [name])

theorem Places.Keeps.refl (p : Places) (fs : FileSystem) : p.Keeps fs fs :=
  ⟨fun _ h => h, fun _ h => Or.inl h⟩

namespace Places.Steady

variable (h : p.Steady q fs)

include h

theorem shift (hshifted : p.Shifted fs fs') : p.Steady q fs' :=
  { h with
    rootLeads := fun fs'' h' => h.rootLeads fs'' (hshifted.trans h')
    approvedLeads := fun fs'' h' => h.approvedLeads fs'' (hshifted.trans h') }

/-! ## What the paths of an id lead to -/

theorem exists_root : ∃ es, fs.LeadsTo q.root p.root es := h.rootLeads fs .nothing

theorem exists_approved : ∃ es, fs.LeadsTo q.approvedRoot p.approved es :=
  h.approvedLeads fs .nothing

theorem locate_root (hname : IsName name)
    (hlength : (absoluteText (p.root ++ [name])).length ≤ maxPath) :
    fs.locate false (absoluteText (p.root ++ [name])) =
      .ok ⟨p.root ++ [name], fs.nodeAt? (p.root ++ [name])⟩ := by
  obtain ⟨es, hleads⟩ := h.exists_root
  have hdir := FileSystem.nodeAt?_of_locate hleads
  rw [FileSystem.locate_entry_last h.rootNames hname hdir hlength, FileSystem.nodeAt?_concat hdir]

theorem locate_approved (hname : IsName name)
    (hlength : (absoluteText (p.approved ++ [name])).length ≤ maxPath) :
    fs.locate false (absoluteText (p.approved ++ [name])) =
      .ok ⟨p.approved ++ [name], fs.nodeAt? (p.approved ++ [name])⟩ := by
  obtain ⟨es, hleads⟩ := h.exists_approved
  have hdir := FileSystem.nodeAt?_of_locate hleads
  rw [FileSystem.locate_entry_last h.approvedNames hname hdir hlength,
    FileSystem.nodeAt?_concat hdir]

/-- If the path of an id leads anywhere, it leads to the entry of the id. -/
theorem eq_of_locate_root {found : Location} (hname : IsName name)
    (hfound : fs.locate false (absoluteText (p.root ++ [name])) = .ok found) :
    found = ⟨p.root ++ [name], fs.nodeAt? (p.root ++ [name])⟩ := by
  have hzero := (h.rootNames.concat hname).zero_not_mem_absoluteText
  have hlength := (FileSystem.fits_of_locate hzero hfound).length_le
  exact Except.ok.inj (hfound.symm.trans (h.locate_root hname hlength))

theorem eq_of_locate_approved {found : Location} (hname : IsName name)
    (hfound : fs.locate false (absoluteText (p.approved ++ [name])) = .ok found) :
    found = ⟨p.approved ++ [name], fs.nodeAt? (p.approved ++ [name])⟩ := by
  have hzero := (h.approvedNames.concat hname).zero_not_mem_absoluteText
  have hlength := (FileSystem.fits_of_locate hzero hfound).length_le
  exact Except.ok.inj (hfound.symm.trans (h.locate_approved hname hlength))

theorem path_of_resolve_root (hpath : QuarantineStep.resolvePath fs q.root id = .ok path) :
    ItemId.isValid id ∧ path = absoluteText (p.root ++ [id]) := by
  obtain ⟨es, hleads⟩ := h.exists_root
  have hid := (QuarantineStep.resolvePath_eq_ok hpath).1
  refine ⟨hid, ?_⟩
  rw [QuarantineStep.path_of_resolvePath hleads hpath,
    h.rootNames.join_absoluteText (ItemId.isName_of_isValid hid)]

theorem path_of_resolve_approved
    (hpath : QuarantineStep.resolvePath fs q.approvedRoot id = .ok path) :
    path = absoluteText (p.approved ++ [id]) := by
  obtain ⟨es, hleads⟩ := h.exists_approved
  have hid := (QuarantineStep.resolvePath_eq_ok hpath).1
  rw [QuarantineStep.path_of_resolvePath hleads hpath,
    h.approvedNames.join_absoluteText (ItemId.isName_of_isValid hid)]

theorem entryExists_approved (hname : IsName name)
    (hroom : (Path.join q.approvedRoot name).length ≤ maxPath) :
    fs.entryExists (Path.join q.approvedRoot name) = true ↔ fs.Occupied (p.approved ++ [name]) := by
  obtain ⟨es, hleads⟩ := h.exists_approved
  exact FileSystem.entryExists_join h.noZero hleads hname hroom

theorem makeRoot_root : (QuarantineStep.makeRoot q.root).perform fs = (fs, .ok ()) := by
  obtain ⟨es, hleads⟩ := h.exists_root
  exact FileSystem.makeDirectories_of_isDirectory (FileSystem.isDirectory_iff.mpr ⟨_, es, hleads⟩)

theorem makeRoot_approved : (QuarantineStep.makeRoot q.approvedRoot).perform fs = (fs, .ok ()) := by
  obtain ⟨es, hleads⟩ := h.exists_approved
  exact FileSystem.makeDirectories_of_isDirectory (FileSystem.isDirectory_iff.mpr ⟨_, es, hleads⟩)

theorem isFree_root (hfree : fs.nodeAt? (p.root ++ [name]) = none) :
    fs.IsFree (p.root ++ [name]) := by
  obtain ⟨es, hleads⟩ := h.exists_root
  have hdir := FileSystem.nodeAt?_of_locate hleads
  exact ⟨p.root, name, es, rfl, hdir, (FileSystem.nodeAt?_concat hdir name).symm.trans hfree⟩

theorem isFree_approved (hfree : fs.nodeAt? (p.approved ++ [name]) = none) :
    fs.IsFree (p.approved ++ [name]) := by
  obtain ⟨es, hleads⟩ := h.exists_approved
  have hdir := FileSystem.nodeAt?_of_locate hleads
  exact ⟨p.approved, name, es, rfl, hdir, (FileSystem.nodeAt?_concat hdir name).symm.trans hfree⟩

/-! ## What the changes keep -/

omit h in
theorem entry_prefix_iff {ns : List Text} {x y : Text} : ns ++ [x] <+: ns ++ [y] ↔ x = y := by
  rw [List.prefix_append_right_inj, List.cons_prefix_cons]
  simp

/-- The entries of the two roots are different places. -/
theorem ne_entry (x y : Text) : p.root ++ [x] ≠ p.approved ++ [y] :=
  fun heq => h.distinct (List.append_inj' heq rfl).1

theorem keeps_claimed (hfree : fs.nodeAt? (p.root ++ [id]) = none) :
    p.Keeps fs (fs.setAt (p.root ++ [id]) (some Node.empty)) := by
  have hgrows := (h.isFree_root hfree).grows (some Node.empty)
  have hkept : ∀ ns, fs.Occupied ns →
      (fs.setAt (p.root ++ [id]) (some Node.empty)).Occupied ns := by
    rintro ns ⟨n, hn⟩
    obtain ⟨n', hn', -⟩ := FileSystem.nodeAt?_grows hgrows hn
    exact ⟨n', hn'⟩
  exact ⟨fun name => hkept _, fun name hname => Or.inl (hkept _ hname)⟩

/-- An id may be given up if it is approved. -/
theorem keeps_givenUp (hempty : fs.nodeAt? (p.root ++ [id]) = some Node.empty)
    (happroved : fs.Occupied (p.approved ++ [id])) :
    p.Keeps fs (fs.setAt (p.root ++ [id]) none) := by
  have hagree : ∀ ns, ¬p.root ++ [id] <+: ns → fs.Occupied ns →
      (fs.setAt (p.root ++ [id]) none).Occupied ns := by
    rintro ns hns ⟨n, hn⟩
    obtain ⟨n', hn', -⟩ := (FileSystem.agreeAt_setAt hns fs none).node hn
    exact ⟨n', hn'⟩
  -- The approved root is not in what is given up, as that is empty.
  have houtside : ∀ name, ¬p.root ++ [id] <+: p.approved ++ [name] := by
    intro name hprefix
    rcases List.prefix_concat_iff.mp hprefix with heq | ⟨more, hmore⟩
    · exact h.ne_entry id name heq
    · obtain ⟨n, hn⟩ := happroved
      rw [← hmore, List.append_assoc, FileSystem.nodeAt?_append, hempty] at hn
      cases more <;> exact nomatch hn
  have hkept : ∀ name, fs.Occupied (p.approved ++ [name]) →
      (fs.setAt (p.root ++ [id]) none).Occupied (p.approved ++ [name]) :=
    fun name => hagree _ (houtside name)
  refine ⟨hkept, fun name hname => ?_⟩
  by_cases heq : id = name
  · subst heq
    exact Or.inr (hkept id happroved)
  · exact Or.inl (hagree _ (fun hprefix => heq (entry_prefix_iff.mp hprefix)) hname)

theorem keeps_approved (hfree : fs.nodeAt? (p.approved ++ [id]) = none)
    (hinside : ¬p.root ++ [id] <+: p.approved ++ [id]) (n : Node) :
    p.Keeps fs ((fs.setAt (p.root ++ [id]) none).setAt (p.approved ++ [id]) (some n)) := by
  have hplace := h.isFree_approved hfree
  have hagree : ∀ ns, ¬p.root ++ [id] <+: ns → fs.Occupied ns →
      ((fs.setAt (p.root ++ [id]) none).setAt (p.approved ++ [id]) (some n)).Occupied ns := by
    rintro ns hold ⟨m, hm⟩
    have hnew : ¬p.approved ++ [id] <+: ns := by
      rintro ⟨more, rfl⟩
      exact nomatch (hplace.nodeAt?_below more).symm.trans hm
    obtain ⟨m', hm', -⟩ := (FileSystem.agreeAt_rename hold hnew fs n).node hm
    exact ⟨m', hm'⟩
  refine ⟨fun name => hagree _ fun hprefix => ?_, fun name hname => ?_⟩
  · rcases List.prefix_concat_iff.mp hprefix with heq | hbelow
    · exact h.ne_entry id name heq
    · exact hinside (hbelow.trans (List.prefix_append _ _))
  · by_cases heq : id = name
    · subst heq
      exact Or.inr ⟨n, FileSystem.nodeAt?_moved hplace hinside n⟩
    · exact Or.inl (hagree _ (fun hprefix => heq (entry_prefix_iff.mp hprefix)) hname)

/-! ## What the steps on an id do -/

/-- The directory of an id is made where nothing is, or not at all. -/
theorem perform_makeDirectory (hname : IsName id) :
    (fs.nodeAt? (p.root ++ [id]) = none ∧
      (QuarantineStep.makeDirectory (absoluteText (p.root ++ [id]))).perform fs =
        (fs.setAt (p.root ++ [id]) (some Node.empty), .ok ())) ∨
    ∃ e, (QuarantineStep.makeDirectory (absoluteText (p.root ++ [id]))).perform fs =
      (fs, .error e) := by
  cases hmake : fs.makeDirectory (absoluteText (p.root ++ [id])) with
  | error e => exact Or.inr ⟨e, by rw [QuarantineStep.perform, hmake, QuarantineStep.change]⟩
  | ok fs' =>
    obtain ⟨place, hlocate, rfl⟩ := FileSystem.makeDirectory_eq_ok hmake
    obtain ⟨rfl, hfree⟩ := Location.mk.inj (h.eq_of_locate_root hname hlocate)
    exact Or.inl ⟨hfree.symm, by rw [QuarantineStep.perform, hmake, QuarantineStep.change]⟩

theorem perform_makeDirectory_taken (hname : IsName id)
    (hlength : (absoluteText (p.root ++ [id])).length ≤ maxPath)
    (htaken : fs.nodeAt? (p.root ++ [id]) = some n) :
    (QuarantineStep.makeDirectory (absoluteText (p.root ++ [id]))).perform fs =
      (fs, .error .fileExists) := by
  have hlocate := h.locate_root hname hlength
  rw [htaken] at hlocate
  exact QuarantineStep.perform_makeDirectory_taken hlocate

theorem perform_makeDirectory_free (hname : IsName id)
    (hlength : (absoluteText (p.root ++ [id])).length ≤ maxPath)
    (hfree : fs.nodeAt? (p.root ++ [id]) = none) :
    (QuarantineStep.makeDirectory (absoluteText (p.root ++ [id]))).perform fs =
      (fs.setAt (p.root ++ [id]) (some Node.empty), .ok ()) := by
  have hlocate := h.locate_root hname hlength
  rw [hfree] at hlocate
  exact QuarantineStep.perform_makeDirectory_free hlocate

/-- The directory of an id is removed if it is empty, or not at all. -/
theorem perform_removeDirectory (hname : IsName id) :
    (fs.nodeAt? (p.root ++ [id]) = some Node.empty ∧
      (QuarantineStep.removeDirectory (absoluteText (p.root ++ [id]))).perform fs =
        (fs.setAt (p.root ++ [id]) none, .ok ())) ∨
    ∃ e, (QuarantineStep.removeDirectory (absoluteText (p.root ++ [id]))).perform fs =
      (fs, .error e) := by
  cases hremove : fs.removeDirectory (absoluteText (p.root ++ [id])) with
  | error e => exact Or.inr ⟨e, by rw [QuarantineStep.perform, hremove, QuarantineStep.change]⟩
  | ok fs' =>
    obtain ⟨place, hlocate, rfl⟩ := FileSystem.removeDirectory_eq_ok hremove
    obtain ⟨rfl, hempty⟩ := Location.mk.inj (h.eq_of_locate_root hname hlocate)
    exact Or.inl ⟨hempty.symm, by rw [QuarantineStep.perform, hremove, QuarantineStep.change]⟩

/-- An id is approved by a rename of its entry to a place where nothing is, or not at all. -/
theorem perform_rename (hname : IsName id) :
    (∃ n, fs.nodeAt? (p.root ++ [id]) = some n ∧ fs.nodeAt? (p.approved ++ [id]) = none ∧
      ¬p.root ++ [id] <+: p.approved ++ [id] ∧
      (QuarantineStep.rename (absoluteText (p.root ++ [id]))
          (absoluteText (p.approved ++ [id]))).perform fs =
        ((fs.setAt (p.root ++ [id]) none).setAt (p.approved ++ [id]) (some n), .ok ())) ∨
    ∃ e, (QuarantineStep.rename (absoluteText (p.root ++ [id]))
      (absoluteText (p.approved ++ [id]))).perform fs = (fs, .error e) := by
  cases hrename : fs.renameNew (absoluteText (p.root ++ [id]))
      (absoluteText (p.approved ++ [id])) with
  | error e => exact Or.inr ⟨e, QuarantineStep.perform_rename_error hrename⟩
  | ok fs' =>
    obtain ⟨old, n, new, hsource, htarget, hinside, rfl⟩ := FileSystem.renameNew_eq_ok hrename
    obtain ⟨rfl, hitem⟩ := Location.mk.inj (h.eq_of_locate_root hname hsource)
    obtain ⟨rfl, hfree⟩ := Location.mk.inj (h.eq_of_locate_approved hname htarget)
    exact Or.inl ⟨n, hitem.symm, hfree.symm, hinside, QuarantineStep.perform_rename hrename⟩

end Places.Steady

/-! ## Roots whose paths lead there when they are empty -/

/-- If the roots are apart, whatever happens to ids is a change of the stock. -/
theorem Places.Leads.eq_stock (h : p.Leads q fs) (hshifted : p.Shifted fs fs') :
    ∃ s, fs' = p.stock fs s := by
  induction hshifted with
  | nothing =>
    obtain ⟨es, hes⟩ := FileSystem.isDirectoryAt_iff.mp h.rootIsDirectory
    obtain ⟨as, has⟩ := FileSystem.isDirectoryAt_iff.mp h.approvedIsDirectory
    exact ⟨⟨es, as⟩, (Places.stock_self hes has).symm⟩
  | claimed _ _ _ ih | givenUp _ _ _ ih =>
    obtain ⟨s, rfl⟩ := ih
    exact ⟨_, h.setAt_root_entry s _ _⟩
  | approved _ _ _ _ _ ih =>
    obtain ⟨s, rfl⟩ := ih
    rw [h.setAt_root_entry]
    exact ⟨_, h.setAt_approved_entry _ _ _⟩

theorem Places.Leads.steady (h : p.Leads q fs) : p.Steady q fs where
  distinct heq := h.apart.1 (heq ▸ List.prefix_refl _)
  rootNames := h.rootNames
  approvedNames := h.approvedNames
  noZero := h.approvedNoZero
  rootLeads fs' hshifted := by
    obtain ⟨s, rfl⟩ := h.eq_stock hshifted
    exact ⟨_, h.leadsTo_root s⟩
  approvedLeads fs' hshifted := by
    obtain ⟨s, rfl⟩ := h.eq_stock hshifted
    exact ⟨_, h.leadsTo_approved s⟩

end Quarantine

end Triage
