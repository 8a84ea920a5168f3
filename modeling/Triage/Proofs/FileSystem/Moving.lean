import Triage.Proofs.FileSystem.Making

/-!
Trees that are moved and removed.

A rename changes what stands at two places or below them, and nothing else (`agreeAt_rename`). What
is taken away bars some ways and opens no others: after a rename, the path to which it led leads to
the new place still, if it leads anywhere (`eq_of_locate_pruned`).
-/

namespace Triage

namespace FileSystem

variable {fs fs' : FileSystem} {ns here todo old new place : List Text} {path : Text} {n : Node}
variable {followLast : Bool} {links : Nat}

/-! ## What a rename and a removal do -/

theorem renameNew_of_locate {source target : Text}
    (hsource : fs.locate false source = .ok ⟨old, some n⟩)
    (htarget : fs.locate false target = .ok ⟨new, none⟩) (hinside : ¬old <+: new) :
    fs.renameNew source target = .ok ((fs.setAt old none).setAt new (some n)) := by
  have hprefix : old.isPrefixOf new = false := by
    rw [Bool.eq_false_iff]
    exact fun h => hinside (List.isPrefixOf_iff_prefix.mp h)
  simp [renameNew, hsource, htarget, bind, Except.bind, hprefix, pure, Except.pure]

/-- A rename fails if its target has no place. -/
theorem renameNew_of_error {source target : Text} {e : FileError}
    (hsource : fs.locate false source = .ok ⟨old, some n⟩)
    (htarget : fs.locate false target = .error e) : fs.renameNew source target = .error e := by
  simp [renameNew, hsource, htarget, bind, Except.bind]

/-- What a rename that succeeds has found, and what it has done. -/
theorem renameNew_eq_ok {source target : Text} (h : fs.renameNew source target = .ok fs') :
    ∃ old n new, fs.locate false source = .ok ⟨old, some n⟩ ∧
      fs.locate false target = .ok ⟨new, none⟩ ∧ ¬old <+: new ∧
      fs' = (fs.setAt old none).setAt new (some n) := by
  rw [renameNew] at h
  cases hsource : fs.locate false source with
  | error e => simp [hsource, bind, Except.bind] at h
  | ok old =>
    cases htarget : fs.locate false target with
    | error e =>
      obtain ⟨names, _ | n⟩ := old
      · simp [hsource, bind, Except.bind, throw, throwThe, MonadExceptOf.throw] at h
      · simp [hsource, htarget, bind, Except.bind] at h
    | ok new =>
      obtain ⟨names, _ | n⟩ := old
      · simp [hsource, bind, Except.bind, throw, throwThe, MonadExceptOf.throw] at h
      · obtain ⟨names', _ | n'⟩ := new
        · simp only [hsource, htarget, bind, Except.bind] at h
          split at h
          · contradiction
          · rename_i hprefix
            refine ⟨names, n, names', rfl, rfl, fun hinside => ?_, (Except.ok.inj h).symm⟩
            exact hprefix (List.isPrefixOf_iff_prefix.mpr hinside)
        · simp [hsource, htarget, bind, Except.bind, throw, throwThe, MonadExceptOf.throw] at h

theorem removeTree_of_locate (h : fs.locate false path = .ok ⟨ns, some n⟩) :
    fs.removeTree path = .ok (fs.setAt ns none) := by
  rw [removeTree, h]

/-- A removal that succeeds has removed what the path led to, if anything. -/
theorem removeTree_eq_ok (h : fs.removeTree path = .ok fs') :
    fs' = fs ∨
      ∃ place n, fs.locate false path = .ok ⟨place, some n⟩ ∧ fs' = fs.setAt place none := by
  rw [removeTree] at h
  split at h
  · rename_i place n hlocate
    exact Or.inr ⟨place, n, hlocate, (Except.ok.inj h).symm⟩
  · exact Or.inl (Except.ok.inj h).symm
  · exact Or.inl (Except.ok.inj h).symm
  · contradiction

/-- A directory that is removed was empty. -/
theorem removeDirectory_eq_ok (h : fs.removeDirectory path = .ok fs') :
    ∃ place, fs.locate false path = .ok ⟨place, some Node.empty⟩ ∧ fs' = fs.setAt place none := by
  rw [removeDirectory] at h
  cases hlocate : fs.locate false path with
  | error e => simp [hlocate, bind, Except.bind] at h
  | ok found =>
    simp only [hlocate, bind, Except.bind] at h
    split at h
    · rename_i hempty
      exact ⟨found.names, by rw [Node.empty, ← hempty], (Except.ok.inj h).symm⟩
    · contradiction
    · contradiction
    · contradiction

/-- A rename leaves all as it was that is neither at its source nor at its target. -/
theorem agreeAt_rename (hold : ¬old <+: ns) (hnew : ¬new <+: ns) (fs : FileSystem) (n : Node) :
    AgreeAt fs ((fs.setAt old none).setAt new (some n)) ns :=
  (agreeAt_setAt hold fs none).trans (agreeAt_setAt hnew _ (some n))

/-! ## Paths after something was taken away -/

/-- What is removed is gone, with all that was below it. -/
theorem nodeAt?_removed (hfs : fs.root.Unambiguous) (hold : fs.nodeAt? old = some n)
    (hne : old ≠ []) (more : List Text) : (fs.setAt old none).nodeAt? (old ++ more) = none := by
  obtain ⟨dir, name, rfl⟩ := (List.eq_nil_or_concat old).resolve_left hne
  rw [List.concat_eq_append] at hold ⊢
  obtain ⟨c, hdir, hentry⟩ : ∃ c, fs.nodeAt? dir = some c ∧ c.find? [name] = some n := by
    rw [nodeAt?_append, Option.bind_eq_some_iff] at hold
    exact hold
  obtain ⟨es, m, rfl, -, -⟩ := Node.find?_cons_eq_some hentry
  have hgone : (fs.setAt (dir ++ [name]) none).nodeAt? (dir ++ [name]) = none := by
    rw [nodeAt?_concat (nodeAt?_setAt_entry hdir name none)]
    exact (hfs dir es hdir).lookup_setEntry_none name
  rw [nodeAt?_append, hgone]
  rfl

/-- Nothing has come but what stands at one place or below it. -/
def Pruned (fs fs' : FileSystem) (new : List Text) : Prop :=
  ∀ ns, fs'.nodeAt? ns = none ∨ AgreeAt fs fs' ns ∨ new <+: ns

theorem pruned_rename (hfs : fs.root.Unambiguous) (hold : fs.nodeAt? old = some n)
    (hinside : ¬old <+: new) : Pruned fs ((fs.setAt old none).setAt new (some n)) new := by
  intro ns
  by_cases hnew : new <+: ns
  · exact Or.inr (Or.inr hnew)
  by_cases hbelow : old <+: ns
  · obtain ⟨more, rfl⟩ := hbelow
    have hne : old ≠ [] := by
      rintro rfl
      exact hinside List.nil_prefix
    have hkept := agreeAt_setAt hnew (fs.setAt old none) (some n)
    rw [AgreeAt, nodeAt?_removed hfs hold hne] at hkept
    exact Or.inl (Option.map_eq_none_iff.mp hkept.symm)
  · exact Or.inr (Or.inl (agreeAt_rename hbelow hnew fs n))

/-- What is looked up on a way to something is there. -/
theorem exists_entry_of_follow {name : Text} (hname : fs.LooksUp here name)
    (h : fs.follow followLast links here (name :: todo) = .ok ⟨ns, some n⟩) :
    ∃ m, fs.nodeAt? (here ++ [name]) = some m := by
  cases hentry : fs.nodeAt? (here ++ [name]) with
  | some m => exact ⟨m, rfl⟩
  | none =>
    rw [hname.follow_missing hentry] at h
    split at h <;> simp at h

/-- The way to a place where nothing was leads there or nowhere, when other things are taken away
and something is put there that is no link. -/
theorem eq_of_follow_pruned {found : Location} (hfree : fs.IsFree new)
    (hpruned : Pruned fs fs' new) (hlink : NoLink (fs'.nodeAt? new))
    (h : fs.Way followLast links here todo found) (hfound : found = ⟨new, none⟩)
    (h' : fs'.follow followLast links here todo = .ok ⟨place, some n⟩) : place = new := by
  -- Where something was, nothing new stands, as this stands where nothing was.
  have hkept : ∀ {ns m m'}, fs.nodeAt? ns = some m → fs'.nodeAt? ns = some m' →
      AgreeAt fs fs' ns := by
    intro ns m m' hm hm'
    rcases hpruned ns with hgone | hagree | ⟨more, rfl⟩
    · exact nomatch hgone.symm.trans hm'
    · exact hagree
    · exact nomatch (hfree.nodeAt?_below more).symm.trans hm
  induction h with
  | arrive =>
    rw [follow_nil] at h'
    obtain ⟨rfl, -⟩ := Location.mk.inj hfound
    exact (Location.mk.inj (Except.ok.inj h')).1.symm
  | dot _ _ ih =>
    rw [follow_dot (isDirectoryAt_of_follow h')] at h'
    exact ih hfound h'
  | dotDot _ _ ih =>
    rw [follow_dotDot (isDirectoryAt_of_follow h')] at h'
    exact ih hfound h'
  | missing hname hentry =>
    obtain ⟨rfl, -⟩ := Location.mk.inj hfound
    have hname' := hname.carry (isDirectoryAt_of_follow h')
    obtain ⟨m, hm⟩ := exists_entry_of_follow hname' h'
    rw [hname'.follow_enter hm (hm ▸ hlink), follow_nil] at h'
    exact (Location.mk.inj (Except.ok.inj h')).1.symm
  | lastLink => exact nomatch (Location.mk.inj hfound).2
  | link hname hentry hlast _ ih =>
    have hname' := hname.carry (isDirectoryAt_of_follow h')
    obtain ⟨m, hm⟩ := exists_entry_of_follow hname' h'
    rw [hname'.follow_link ((hkept hentry hm).link hentry) hlast] at h'
    exact ih hfound h'
  | enter hname hentry hnolink _ ih =>
    have hname' := hname.carry (isDirectoryAt_of_follow h')
    obtain ⟨m, hm⟩ := exists_entry_of_follow hname' h'
    rw [hname'.follow_enter hm (hm ▸ (hkept hentry hm).noLink (hentry ▸ hnolink))] at h'
    exact ih hfound h'

/-- The path of a place where nothing was leads there or nowhere. -/
theorem eq_of_locate_pruned (hpruned : Pruned fs fs' new) (hlink : NoLink (fs'.nodeAt? new))
    (hstart : fs'.workingDirectory = fs.workingDirectory)
    (h : fs.locate followLast path = .ok ⟨new, none⟩)
    (h' : fs'.locate followLast path = .ok ⟨place, some n⟩) : place = new := by
  obtain ⟨-, -, hfollow, -⟩ := locate_eq_ok_iff.mp h
  obtain ⟨-, -, hfollow', -⟩ := locate_eq_ok_iff.mp h'
  rw [startOf, hstart] at hfollow'
  exact eq_of_follow_pruned (isFree_of_locate h) hpruned hlink (follow_eq_ok_iff.mp hfollow) rfl
    hfollow'

/-- A way that leads somewhere in two trees leads there in a third one that has all that both of
them have. -/
theorem Way.of_both {fs'' : FileSystem} {found : Location} {m : Node}
    (hboth : ∀ ns n m, fs.nodeAt? ns = some n → fs'.nodeAt? ns = some m →
      AgreeAt fs fs' ns ∧ AgreeAt fs fs'' ns)
    (h : fs.Way followLast links here todo found) (hfound : found.node = some n)
    (h' : fs'.follow followLast links here todo = .ok ⟨place, some m⟩) :
    fs''.Way followLast links here todo ⟨found.names, fs''.nodeAt? found.names⟩ := by
  -- A directory of both file systems is one of the third.
  have hdirectory : ∀ {here}, fs.isDirectoryAt here → fs'.isDirectoryAt here →
      fs''.isDirectoryAt here := by
    intro here h h'
    obtain ⟨es, hes⟩ := isDirectoryAt_iff.mp h
    obtain ⟨es', hes'⟩ := isDirectoryAt_iff.mp h'
    exact isDirectoryAt_iff.mpr ((hboth here _ _ hes hes').2.directory hes)
  induction h with
  | arrive => exact .arrive
  | dot hdir _ ih =>
    have hdir' := isDirectoryAt_of_follow h'
    rw [follow_dot hdir'] at h'
    exact .dot (hdirectory hdir hdir') (ih hfound h')
  | dotDot hdir _ ih =>
    have hdir' := isDirectoryAt_of_follow h'
    rw [follow_dotDot hdir'] at h'
    exact .dotDot (hdirectory hdir hdir') (ih hfound h')
  | missing => contradiction
  | lastLink hname hentry hlast =>
    have hdir' := isDirectoryAt_of_follow h'
    obtain ⟨k, hk⟩ := exists_entry_of_follow (hname.carry hdir') h'
    have hentry'' := (hboth _ _ _ hentry hk).2.link hentry
    rw [hentry'']
    exact .lastLink (hname.carry (hdirectory hname.directory hdir')) hentry'' hlast
  | link hname hentry hlast _ ih =>
    have hdir' := isDirectoryAt_of_follow h'
    have hname' := hname.carry hdir'
    obtain ⟨k, hk⟩ := exists_entry_of_follow hname' h'
    obtain ⟨hsame, hsame'⟩ := hboth _ _ _ hentry hk
    rw [hname'.follow_link (hsame.link hentry) hlast] at h'
    exact .link (hname.carry (hdirectory hname.directory hdir')) (hsame'.link hentry) hlast
      (ih hfound h')
  | enter hname hentry hlink _ ih =>
    have hdir' := isDirectoryAt_of_follow h'
    have hname' := hname.carry hdir'
    obtain ⟨k, hk⟩ := exists_entry_of_follow hname' h'
    obtain ⟨hsame, hsame'⟩ := hboth _ _ _ hentry hk
    obtain ⟨k', hk', -⟩ := hsame'.node hentry
    rw [hname'.follow_enter hk (hk ▸ hsame.noLink (hentry ▸ hlink))] at h'
    exact .enter (hname.carry (hdirectory hname.directory hdir')) hk'
      (hk' ▸ hsame'.noLink (hentry ▸ hlink)) (ih hfound h')

/-- What is moved is found at its new place. -/
theorem nodeAt?_moved (hfree : fs.IsFree new) (hinside : ¬old <+: new) (n : Node) :
    ((fs.setAt old none).setAt new (some n)).nodeAt? new = some n := by
  obtain ⟨dir, name, es, rfl, hdir, -⟩ := hfree
  have houtside : ¬old <+: dir := fun h => hinside (h.trans (List.prefix_append dir [name]))
  obtain ⟨es', hdir'⟩ := (agreeAt_setAt houtside fs none).directory hdir
  rw [nodeAt?_concat (nodeAt?_setAt_entry hdir' name (some n)), Node.lookup_setEntry_some]

/-- The path to which a directory was renamed leads to where it stands now, if anywhere. -/
theorem eq_of_locate_renamed {source target : Text} {es : List (Text × Node)} {m : Node}
    (hfs : fs.root.Unambiguous) (hsource : fs.locate false source = .ok ⟨old, some (.directory es)⟩)
    (htarget : fs.locate false target = .ok ⟨new, none⟩) (hinside : ¬old <+: new)
    (h : ((fs.setAt old none).setAt new (some (.directory es))).locate false target =
      .ok ⟨place, some m⟩) : place = new := by
  have hmoved := nodeAt?_moved (isFree_of_locate htarget) hinside (.directory es)
  have hpruned := pruned_rename hfs (nodeAt?_of_locate hsource) hinside
  refine eq_of_locate_pruned hpruned ?_ rfl htarget h
  rw [hmoved]
  exact fun _ => nofun

/-- If the path of a directory leads there before and after something was moved, it does so also
without it. -/
theorem leadsTo_without {es es' : List (Text × Node)} (hfs : fs.root.Unambiguous)
    (hold : fs.nodeAt? old = some n) (hfree : fs.IsFree new) (hinside : ¬old <+: new)
    (h : fs.LeadsTo path ns es)
    (h' : ((fs.setAt old none).setAt new (some n)).LeadsTo path ns es') :
    ∃ es'', (fs.setAt old none).LeadsTo path ns es'' := by
  have hne : old ≠ [] := by
    rintro rfl
    exact hinside List.nil_prefix
  -- What both have is neither what was moved nor below it, so it is as it was.
  have hboth : ∀ ns m m', fs.nodeAt? ns = some m →
      ((fs.setAt old none).setAt new (some n)).nodeAt? ns = some m' →
      AgreeAt fs ((fs.setAt old none).setAt new (some n)) ns ∧ AgreeAt fs (fs.setAt old none) ns := by
    intro ns m m' hm hm'
    have hnew : ¬new <+: ns := by
      rintro ⟨more, rfl⟩
      exact nomatch (hfree.nodeAt?_below more).symm.trans hm
    have hkept := agreeAt_setAt hnew (fs.setAt old none) (some n)
    have hbelow : ¬old <+: ns := by
      rintro ⟨more, rfl⟩
      obtain ⟨m, hm, -⟩ := hkept.symm.node hm'
      exact nomatch (nodeAt?_removed hfs hold hne more).symm.trans hm
    have hgone := agreeAt_setAt hbelow fs none
    exact ⟨hgone.trans hkept, hgone⟩
  obtain ⟨hempty, hlength, hfollow, -⟩ := locate_eq_ok_iff.mp h
  obtain ⟨-, -, hfollow', -⟩ := locate_eq_ok_iff.mp h'
  have hwithout := follow_eq_ok_iff.mpr
    ((follow_eq_ok_iff.mp hfollow).of_both hboth rfl hfollow')
  obtain ⟨es'', hes''⟩ :=
    (hboth ns _ _ (nodeAt?_of_locate h) (nodeAt?_of_locate h')).2.directory (nodeAt?_of_locate h)
  rw [hes''] at hwithout
  refine ⟨es'', locate_eq_ok_iff.mpr ⟨hempty, hlength, hwithout, fun _ m hm => ⟨es'', ?_⟩⟩⟩
  exact (Option.some.inj hm).symm

end FileSystem

end Triage
