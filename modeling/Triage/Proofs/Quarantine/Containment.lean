import Triage.Proofs.FileSystem.Moving
import Triage.Proofs.Quarantine.Catalogue
import Triage.Proofs.Quarantine.Failure

/-!
What an approval or a rejection may change.

Whatever the files are like, and even if its steps break off, a call changes nothing but the slots
of its id, and the tombstone if it rejects, after it has made the roots if it approves
(`call_contained`). Links at or below a slot lead it nowhere else: it refuses a slot that is a link.
-/

namespace Triage

open FileSystem (AgreeAt Fits)

namespace Quarantine

variable {fs fs' fs'' made : FileSystem} {q : Quarantine} {root base id name path : Text}
variable {slot : List Text} {slots : List Text → Prop} {c : Call}

/-! ## Slots -/

/-- A name in the directory of a path leads to the place. If the system takes that path, this is the
entry of the name in the directory to which it leads. -/
def SlotAt (fs : FileSystem) (dir name : Text) (slot : List Text) : Prop :=
  (∃ node, fs.locate false (Path.join dir name) = .ok ⟨slot, node⟩) ∧
    (Fits dir → ∃ ns es, fs.LeadsTo dir ns es ∧ slot = ns ++ [name])

theorem slotAt_of_locate {dir : Text} {node : Option Node} (hname : Fits dir → Path.IsName name)
    (h : fs.locate false (Path.join dir name) = .ok ⟨slot, node⟩) : SlotAt fs dir name slot := by
  refine ⟨⟨node, h⟩, fun hdir => ?_⟩
  obtain ⟨ns, es, hleads, hfound⟩ := FileSystem.leadsTo_of_locate_join hdir (hname hdir) h
  exact ⟨ns, es, hleads, (Location.mk.inj hfound).1⟩

theorem isName_of_locate_tombstone {process count : UInt32} {found : Location}
    (hid : ItemId.isValid id) (hroot : Fits q.root)
    (h : fs.locate false (q.tombstone id (mark process count)) = .ok found) :
    Path.IsName (tombName id (mark process count)) := by
  have hpiece := isPiece_tombName hid process count
  have hzero : 0 ∉ q.tombstone id (mark process count) :=
    hpiece.not_mem_join (by decide) hroot.noZero (zero_not_mem_tombName hid process count)
  refine isName_tombName_of_length hid (FileSystem.length_le_of_locate hzero h _ ?_)
  rw [tombstone_eq, hpiece.names_join]
  exact List.mem_append_right _ (List.mem_singleton_self _)

/-- The slots that a call may change. The canonical paths of the roots are those from before the
roots are made; the slots are found after that. -/
inductive Call.Slot (q : Quarantine) (before fs : FileSystem) : Call → List Text → Prop where
  | quarantined {c : Call} {base : Text} {slot : List Text}
    (hroot : before.canonical q.root = .ok base) (hslot : SlotAt fs base c.id slot) :
    Slot q before fs c slot
  | approved {id base : Text} {slot : List Text}
    (hroot : before.canonical q.approvedRoot = .ok base) (hslot : SlotAt fs base id slot) :
    Slot q before fs (.approve id) slot
  | tombstone {id : Text} {process count : UInt32} {slot : List Text}
    (hslot : SlotAt fs q.root (tombName id (mark process count)) slot) :
    Slot q before fs (.reject id process count) slot

/-- All is as it was that is not in one of the slots. -/
def Confined (slots : List Text → Prop) (fs fs' : FileSystem) : Prop :=
  ∀ ns, AgreeAt fs fs' ns ∨ ∃ slot, slots slot ∧ slot <+: ns

theorem Confined.refl (slots : List Text → Prop) (fs : FileSystem) : Confined slots fs fs :=
  fun _ => Or.inl rfl

theorem confined_rename {old new : List Text} {n : Node} (hold : slots old) (hnew : slots new) :
    Confined slots fs ((fs.setAt old none).setAt new (some n)) := by
  intro ns
  by_cases h : old <+: ns
  · exact Or.inr ⟨old, hold, h⟩
  by_cases h' : new <+: ns
  · exact Or.inr ⟨new, hnew, h'⟩
  exact Or.inl (FileSystem.agreeAt_rename h h' fs n)

theorem Confined.remove (h : Confined slots fs fs') (hslot : slots slot) :
    Confined slots fs (fs'.setAt slot none) := by
  intro ns
  by_cases hbelow : slot <+: ns
  · exact Or.inr ⟨slot, hslot, hbelow⟩
  · exact (h ns).imp_left fun hagree => hagree.trans (FileSystem.agreeAt_setAt hbelow fs' none)

/-! ## Links at slots -/

/-- The entry of an id below a root is a link. -/
def LinkAt (fs : FileSystem) (root id : Text) : Prop :=
  ∃ base target, fs.canonical root = .ok base ∧
    fs.node false (Path.join base id) = .ok (.link target)

/-- There is an entry of an id below a root. -/
def EntryAt (fs : FileSystem) (root id : Text) : Prop :=
  ∃ base, fs.canonical root = .ok base ∧ fs.entryExists (Path.join base id)

theorem not_linkAt_of_resolvePath (h : QuarantineStep.resolvePath fs root id = .ok path) :
    ¬LinkAt fs root id := by
  rintro ⟨base, target, hbase, hlink⟩
  obtain ⟨-, ⟨base', hbase', rfl⟩, hnot⟩ := QuarantineStep.resolvePath_eq_ok h
  obtain rfl := Except.ok.inj (hbase.symm.trans hbase')
  exact hnot target hlink

/-! ## What a call does, be it that it fails -/

def Call.isApproval : Call → Bool
  | .approve _ => true
  | .reject .. => false

/-- The call has found no links at the slots that it looks at, and has changed nothing but slots of
its own; if it approves, it made the roots before that. -/
structure Call.Acts (c : Call) (q : Quarantine) (fs fs' : FileSystem) : Prop where
  noLink : ¬LinkAt fs q.root c.id
  noApprovedLink : LinkAt fs q.approvedRoot c.id → EntryAt fs q.root c.id ∧ c.isApproval = false
  confined : ∃ made, RootsMade q fs made ∧ (c.isApproval = false → made = fs) ∧
    Confined (c.Slot q fs made) made fs'

theorem node_of_openPath (h : QuarantineStep.openPath fs path = .ok ()) :
    ∃ es, fs.node false path = .ok (.directory es) := by
  rw [QuarantineStep.openPath] at h
  split at h
  · contradiction
  · rename_i es hnode
    exact ⟨es, hnode⟩
  · contradiction
  · contradiction

/-- Only a directory is opened. -/
theorem ensures_openItem (path : Text) (meaning : FileError → QuarantineError) :
    Ensures (Attempt.must (Attempt.ask (.openItem path)) meaning) fs
      (fun fs' _ => fs' = fs ∧ ∃ es, fs.node false path = .ok (.directory es))
      (fun fs' _ => fs' = fs) := by
  refine ensures_must (ensures_ask fun fs' answer hanswer => ?_)
  rcases hanswer with h | ⟨hfs, cause, rfl⟩
  · obtain ⟨rfl, hopen⟩ := Prod.mk.inj h
    exact ⟨fun hok => ⟨rfl, node_of_openPath (hopen.symm.trans hok)⟩, fun _ _ => rfl⟩
  · exact ⟨fun hok => by contradiction, fun _ _ => hfs⟩

theorem ensures_lockItem (path : Text) : Ensures (lockItem path) fs
    (fun fs' _ => fs' = fs ∧ ∃ es, fs.node false path = .ok (.directory es))
    (fun fs' _ => fs' = fs) := by
  refine (ensures_openItem path _).bind ?_
  rintro fs _ ⟨rfl, hnode⟩
  exact (ensures_unchanged (.lock path) (fun _ _ h => h) rfl).mono (fun _ _ h => ⟨h, hnode⟩)
    fun _ _ h => h

theorem ensures_rename (source target : Text) {failed : FileSystem → QuarantineError → Prop} :
    Ensures (Attempt.ask (.rename source target)) fs
      (fun fs' answer => (answer = .ok () → fs.renameNew source target = .ok fs') ∧
        ∀ cause, answer = .error cause → fs' = fs) failed := by
  refine ensures_ask fun fs' answer hanswer => ?_
  rcases hanswer with h | ⟨hfs, cause, rfl⟩
  · exact QuarantineStep.eq_change h
  · exact ⟨fun hok => by contradiction, fun _ _ => hfs⟩

/-- An item is moved by a single rename, and only if it is a directory. -/
theorem ensures_moveItem (source target : Text) (meaning : FileError → QuarantineError) :
    Ensures (moveItem source target meaning) fs
      (fun fs' _ => (∃ es, fs.node false source = .ok (.directory es)) ∧
        fs.renameNew source target = .ok fs')
      (fun fs' _ => fs' = fs) := by
  refine (ensures_lockItem source).bind ?_
  rintro fs _ ⟨rfl, hnode⟩
  refine (ensures_rename source target).bind fun fs₁ answer hanswer => ?_
  refine (ensures_unchanged (.unlock source) (fun _ _ h => h) rfl).bind ?_
  rintro fs₁ _ rfl
  exact ensures_must (ensures_pure ⟨fun hok => ⟨hnode, hanswer.1 hok⟩, hanswer.2⟩)

/-- An approval acts, or fails before it changes anything. -/
theorem ensures_approve (id : Text) : Ensures (q.approve id) fs
    (fun fs' _ => Call.Acts (.approve id) q fs fs')
    (fun fs' _ => fs' = fs ∨ Call.Acts (.approve id) q fs fs') := by
  refine ((ensures_resolve q.root id).mono (fun _ _ h => h) fun _ _ h => Or.inl h.1).bind ?_
  rintro fs source ⟨rfl, hsource⟩
  refine ((ensures_resolve q.approvedRoot id).mono (fun _ _ h => h) fun _ _ h => Or.inl h.1).bind ?_
  rintro fs target ⟨rfl, htarget⟩
  have hacts : ∀ {made fs'}, RootsMade q fs made →
      Confined (Call.Slot q fs made (.approve id)) made fs' →
      Call.Acts (.approve id) q fs fs' := fun {made _} hmade hconfined =>
    { noLink := not_linkAt_of_resolvePath hsource
      noApprovedLink := fun hlink => absurd hlink (not_linkAt_of_resolvePath htarget)
      confined := ⟨made, hmade, fun h => by contradiction, hconfined⟩ }
  obtain ⟨hid, ⟨base, hroot, rfl⟩, -⟩ := QuarantineStep.resolvePath_eq_ok hsource
  obtain ⟨-, ⟨base', happroved, rfl⟩, -⟩ := QuarantineStep.resolvePath_eq_ok htarget
  have hname := ItemId.isName_of_isValid hid
  refine (ensures_exists _).bind ?_
  rintro fs (_ | _) ⟨rfl, -⟩
  · refine (ensures_exists _).bind ?_
    rintro fs (_ | _) ⟨rfl, -⟩
    · exact ensures_throw_bind (Or.inl rfl)
    · exact ensures_throw_bind (Or.inl rfl)
  · refine (ensures_makeRoots.mono (fun _ _ h => h) fun fs' _ h => ?_).bind fun made _ hmade => ?_
    · exact Or.inr (hacts h.1 (.refl _ fs'))
    · refine (ensures_moveItem _ _ _).mono (fun fs' _ h => ?_) fun fs' _ h => ?_
      · obtain ⟨old, n, new, hold, hnew, -, rfl⟩ := FileSystem.renameNew_eq_ok h.2
        have hslot := slotAt_of_locate (fun _ => hname) hold
        have hslot' := slotAt_of_locate (fun _ => hname) hnew
        exact hacts hmade (confined_rename (.quarantined hroot hslot) (.approved happroved hslot'))
      · subst h
        exact Or.inr (hacts hmade (.refl _ _))

/-- A rejection goes on only with an entry that is quarantined. -/
theorem ensures_toReject (id : Text) : Ensures (q.toReject id) fs
    (fun fs' source => fs' = fs ∧ QuarantineStep.resolvePath fs q.root id = .ok source ∧
      fs.entryExists source)
    (fun fs' _ => fs' = fs) := by
  refine ((ensures_resolve q.root id).mono (fun _ _ h => h) fun _ _ h => h.1).bind ?_
  rintro fs source ⟨rfl, hsource⟩
  refine (ensures_exists source).bind ?_
  rintro fs (_ | _) ⟨rfl, hexists⟩
  · refine ((ensures_resolve q.approvedRoot id).mono (fun _ _ h => h) fun _ _ h => h.1).bind ?_
    rintro fs target ⟨rfl, -⟩
    refine (ensures_exists target).bind ?_
    rintro fs (_ | _) ⟨rfl, -⟩
    · exact ensures_throw_bind rfl
    · exact ensures_throw_bind rfl
  · exact ensures_pure ⟨rfl, hsource, hexists⟩

/-- What was renamed to a path is removed from where it was put, if at all. -/
theorem confined_discard {source : Text} {es : List (Text × Node)} (hfs : fs.root.Unambiguous)
    (hdir : fs.node false source = .ok (.directory es))
    (hrename : fs.renameNew source path = .ok fs')
    (hold : ∀ old n, fs.locate false source = .ok ⟨old, some n⟩ → slots old)
    (hnew : ∀ new, fs.locate false path = .ok ⟨new, none⟩ → slots new) :
    Confined slots fs fs' ∧
      ∀ fs'', fs'.removeTree path = .ok fs'' → Confined slots fs fs'' := by
  obtain ⟨old, n, new, hsource, htarget, hinside, rfl⟩ := FileSystem.renameNew_eq_ok hrename
  have hconfined : Confined slots fs ((fs.setAt old none).setAt new (some n)) :=
    confined_rename (hold old n hsource) (hnew new htarget)
  refine ⟨hconfined, fun fs'' hremove => ?_⟩
  obtain rfl : n = .directory es :=
    Except.ok.inj ((FileSystem.node_of_locate hsource).symm.trans hdir)
  rcases FileSystem.removeTree_eq_ok hremove with rfl | ⟨place, m, hplace, rfl⟩
  · exact hconfined
  · obtain rfl := FileSystem.eq_of_locate_renamed hfs hsource htarget hinside hplace
    exact hconfined.remove (hnew place htarget)

/-- A rejection has found its item, a directory, and moved it to the tombstone. -/
structure Buries (q : Quarantine) (fs : FileSystem) (id mark source : Text)
    (buried : FileSystem) : Prop where
  path : QuarantineStep.resolvePath fs q.root id = .ok source
  found : fs.entryExists source
  isDirectory : ∃ es, fs.node false source = .ok (.directory es)
  moved : fs.renameNew source (q.tombstone id mark) = .ok buried

/-- A rejection moves its item and then removes it, or fails before it changes anything, or fails
after the move. -/
theorem ensures_reject_moves (mark id : Text) : Ensures (q.reject mark id) fs
    (fun fs' _ => ∃ source buried, Buries q fs id mark source buried ∧
      buried.removeTree (q.tombstone id mark) = .ok fs')
    (fun fs' _ => fs' = fs ∨ ∃ source, Buries q fs id mark source fs') := by
  refine ((ensures_toReject id).mono (fun _ _ h => h) fun _ _ h => Or.inl h).bind ?_
  rintro fs source ⟨rfl, hsource, hexists⟩
  refine ((ensures_moveItem _ _ _).mono (fun _ _ h => h) fun _ _ h => Or.inl h).bind ?_
  rintro buried _ ⟨hdir, hrename⟩
  have hburies : Buries q fs id mark source buried := ⟨hsource, hexists, hdir, hrename⟩
  refine ensures_must (ensures_ask fun fs' answer hanswer => ?_)
  rcases hanswer with h | h
  · obtain ⟨hok, herror⟩ := QuarantineStep.eq_change h
    refine ⟨fun hdone => ⟨source, buried, hburies, hok hdone⟩, fun cause hcause => ?_⟩
    obtain rfl := herror cause hcause
    exact Or.inr ⟨source, hburies⟩
  · exact h.elim

theorem ensures_reject (hfs : fs.root.Unambiguous) (id : Text) (process count : UInt32) :
    Ensures (q.reject (mark process count) id) fs
      (fun fs' _ => Call.Acts (.reject id process count) q fs fs')
      (fun fs' _ => fs' = fs ∨ Call.Acts (.reject id process count) q fs fs') := by
  have hacts : ∀ {source fs'}, Buries q fs id (mark process count) source fs' →
      ∀ fs'', fs'' = fs' ∨ fs'.removeTree (q.tombstone id (mark process count)) = .ok fs'' →
      Call.Acts (.reject id process count) q fs fs'' := by
    rintro source buried ⟨hsource, hexists, ⟨es, hdir⟩, hrename⟩ fs'' hend
    obtain ⟨hid, ⟨base, hroot, rfl⟩, -⟩ := QuarantineStep.resolvePath_eq_ok hsource
    have hold : ∀ old n, fs.locate false (Path.join base id) = .ok ⟨old, some n⟩ →
        Call.Slot q fs fs (.reject id process count) old := fun old n h =>
      .quarantined hroot (slotAt_of_locate (fun _ => ItemId.isName_of_isValid hid) h)
    have hnew : ∀ new, fs.locate false (q.tombstone id (mark process count)) = .ok ⟨new, none⟩ →
        Call.Slot q fs fs (.reject id process count) new := fun new h =>
      .tombstone (slotAt_of_locate (fun hfits => isName_of_locate_tombstone hid hfits h) h)
    obtain ⟨hmoved, hremoved⟩ := confined_discard hfs hdir hrename hold hnew
    refine
      { noLink := not_linkAt_of_resolvePath hsource
        noApprovedLink := fun _ => ⟨⟨base, hroot, hexists⟩, rfl⟩
        confined := ⟨fs, .nothing, fun _ => rfl, ?_⟩ }
    rcases hend with rfl | hremove
    · exact hmoved
    · exact hremoved fs'' hremove
  refine (ensures_reject_moves _ id).mono (fun fs' _ h => ?_) fun fs' _ h => h.imp_right ?_
  · obtain ⟨source, buried, hburies, hremove⟩ := h
    exact hacts hburies fs' (Or.inr hremove)
  · rintro ⟨source, hburies⟩
    exact hacts hburies fs' (Or.inl rfl)

/-! ## Calls -/

theorem ensures_call (hfs : fs.root.Unambiguous) (c : Call) : Ensures (c.attempt q) fs
    (fun fs' _ => c.Acts q fs fs') (fun fs' _ => fs' = fs ∨ c.Acts q fs fs') := by
  cases c with
  | approve id => exact ensures_approve id
  | reject id process count => exact ensures_reject hfs id process count

/-- An id that is none is refused before anything is looked at. -/
theorem ensures_invalid (hid : ItemId.isValid c.id = false) : Ensures (c.attempt q) fs
    (fun _ _ => False) (fun fs' e => fs' = fs ∧ e = .invalidId c.id) := by
  have hrefused : Ensures (Attempt.resolve q.root c.id) fs (fun _ _ => False)
      (fun fs' e => fs' = fs ∧ e = .invalidId c.id) := by
    have hinvalid : QuarantineStep.resolvePath fs q.root c.id = .error (.invalidId c.id) :=
      QuarantineStep.resolvePath_invalid hid
    refine (ensures_resolve q.root c.id).mono ?_ ?_
    · rintro fs' path ⟨rfl, h⟩
      rw [hinvalid] at h
      contradiction
    · rintro fs' e ⟨hfs, h | ⟨hvalid, -⟩⟩
      · exact ⟨hfs, Except.error.inj (h.symm.trans hinvalid)⟩
      · simp [hid] at hvalid
  cases c with
  | approve id => exact hrefused.bind fun _ _ h => h.elim
  | reject id process count =>
    exact Ensures.bind (hrefused.bind fun _ _ h => h.elim) fun _ _ (h : False) => h.elim

theorem isValid_eq_false (h : id = [] ∨ 255 < id.length ∨ ∃ b ∈ id, ItemId.isIdByte b = false) :
    ItemId.isValid id = false := by
  rw [Bool.eq_false_iff, ne_eq, ItemId.isValid_iff]
  rintro ⟨hne, hlength, hbytes⟩
  rcases h with hempty | hlong | ⟨b, hb, hbyte⟩
  · exact hne hempty
  · exact absurd hlength (Nat.not_le.mpr hlong)
  · exact Bool.false_ne_true (hbyte ▸ hbytes b hb)

/-- **A call is contained**, whatever the files are like and even if its steps break off. Once an
approval has made the roots, a call changes nothing but its slots. An id that is none is refused
before anything is looked at. A slot that is a link is refused, and left as it is; a rejection looks
at the approved items only if there is nothing of the id in quarantine. -/
theorem call_contained {outcome : Except QuarantineError Unit} (hfs : fs.root.Unambiguous)
    (h : (c.attempt q).run.MayEnd fs fs' outcome) :
    (∃ made, RootsMade q fs made ∧ (c.isApproval = false → made = fs) ∧
      Confined (c.Slot q fs made) made fs') ∧
    (c.id = [] ∨ 255 < c.id.length ∨ (∃ b ∈ c.id, ItemId.isIdByte b = false) →
      fs' = fs ∧ outcome = .error (.invalidId c.id)) ∧
    (LinkAt fs q.root c.id ∨
        LinkAt fs q.approvedRoot c.id ∧ (c.isApproval = false → ¬EntryAt fs q.root c.id) →
      fs' = fs ∧ ∃ e, outcome = .error e) := by
  have hends : (fs' = fs ∧ ∃ e, outcome = .error e) ∨ c.Acts q fs fs' := by
    have hcall := ensures_call hfs c fs' outcome h
    cases outcome with
    | ok _ => exact Or.inr hcall
    | error e => exact hcall.imp_left fun hsame => ⟨hsame, e, rfl⟩
  refine ⟨?_, fun hid => ?_, fun hlink => hends.resolve_right fun hacts => ?_⟩
  · rcases hends with ⟨rfl, -⟩ | hacts
    · exact ⟨fs', .nothing, fun _ => rfl, .refl _ _⟩
    · exact hacts.confined
  · have hinvalid := ensures_invalid (isValid_eq_false hid) fs' outcome h
    cases outcome with
    | ok _ => exact hinvalid.elim
    | error e => exact ⟨hinvalid.1, congrArg Except.error hinvalid.2⟩
  · rcases hlink with hlink | ⟨hlink, hmissing⟩
    · exact hacts.noLink hlink
    · obtain ⟨hentry, hrejects⟩ := hacts.noApprovedLink hlink
      exact hmissing hrejects hentry

/-- An item that holds a link to what stands beside the roots, and a link to the item. -/
def linkedItems : FileSystem :=
  ⟨.directory [("q".ascii, .directory [("a".ascii, .directory [("l".ascii, .link "../../s".ascii)]),
    ("b".ascii, .link "a".ascii)]), ("p".ascii, Node.empty), ("s".ascii, Node.empty)], []⟩

theorem linkedItems_unambiguous : linkedItems.root.Unambiguous := by
  have hleaf : ∀ n : Node, n.entries = [] → n.Unambiguous := fun n hn =>
    Node.unambiguous_of_entries (hn ▸ List.nodup_nil) (hn ▸ List.forall_mem_nil _)
  have hitem : (Node.directory [("l".ascii, .link "../../s".ascii)]).Unambiguous :=
    Node.unambiguous_of_entries (List.nodup_singleton _)
      (List.forall_mem_singleton.mpr (hleaf _ rfl))
  have hroot : (Node.directory [("a".ascii, .directory [("l".ascii, .link "../../s".ascii)]),
      ("b".ascii, .link "a".ascii)]).Unambiguous := by
    refine Node.unambiguous_of_entries ?_ (List.forall_mem_cons.mpr ⟨hitem, ?_⟩)
    · simp [Node.UniqueNames, Node.entries, String.ascii]
    · exact List.forall_mem_singleton.mpr (hleaf _ rfl)
  refine Node.unambiguous_of_entries ?_ (List.forall_mem_cons.mpr ⟨hroot, ?_⟩)
  · simp [Node.UniqueNames, Node.entries, linkedItems, String.ascii]
  · exact List.forall_mem_cons.mpr ⟨hleaf _ rfl, List.forall_mem_singleton.mpr (hleaf _ rfl)⟩

theorem call_contained_linkedItems :
    let ended := (Call.reject "a".ascii 1 0).perform ⟨"q".ascii, "p".ascii⟩ linkedItems
    ended.2 = .ok () ∧
      Confined (Call.Slot ⟨"q".ascii, "p".ascii⟩ linkedItems linkedItems (.reject "a".ascii 1 0))
        linkedItems ended.1 := by
  have hends := Procedure.mayEnd_run
    ((Call.reject "a".ascii 1 0).attempt ⟨"q".ascii, "p".ascii⟩).run linkedItems
  obtain ⟨made, -, hmade, hconfined⟩ := (call_contained linkedItems_unambiguous hends).1
  obtain rfl := hmade rfl
  exact ⟨by cbv, hconfined⟩

/-- A quarantined item, and a link of the same id among the approved items. -/
def approvedLink : FileSystem :=
  ⟨.directory [("q".ascii, .directory [("a".ascii, Node.empty)]),
    ("p".ascii, .directory [("a".ascii, .link "b".ascii)])], []⟩

/-- Two quarantined items. -/
def twoItems : FileSystem :=
  ⟨.directory [("q".ascii, .directory [("t".ascii, Node.empty), ("s".ascii, Node.empty)])], []⟩

/-- The approved items have no place yet, on a way that leads through an item. -/
def throughItems : Quarantine := ⟨"q".ascii, "q/s/a/../../../p".ascii⟩

/-- A rejection does not look at the approved items if there is something to reject. And an approval
makes what is missing on the way to a root as it is written, be it in another item. -/
theorem call_beyond :
    let rejected := (Call.reject "a".ascii 1 0).perform ⟨"q".ascii, "p".ascii⟩ approvedLink
    let approved := (Call.approve "t".ascii).perform throughItems twoItems
    (LinkAt approvedLink "p".ascii "a".ascii ∧ rejected.2 = .ok ()) ∧
      twoItems.canonical throughItems.approvedRoot = .ok "/p".ascii ∧ approved.2 = .ok () ∧
      twoItems.nodeAt? ["q".ascii, "s".ascii] = some Node.empty ∧
      approved.1.nodeAt? ["q".ascii, "s".ascii] =
        some (.directory [("a".ascii, Node.empty)]) :=
  ⟨⟨⟨"/p".ascii, "b".ascii, by cbv, by cbv⟩, by cbv⟩, by cbv, by cbv, rfl, by cbv⟩

end Quarantine

end Triage
