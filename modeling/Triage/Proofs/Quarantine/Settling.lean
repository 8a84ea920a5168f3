import Mathlib
import Triage.Proofs.Quarantine.Catalogue
import Triage.Proofs.Quarantine.Race

/-!
Approvals and rejections of one item that race for it.

The item waits until one rename moves it away, and no later rename finds it (`Stage`). A caller that
has come to know that is a loser and changes nothing any more; the one whose rename it was is the
winner, and ends well (`Role`). What the callers knew before they had the lock need not be true any
more, but it only keeps them in the race. The argument does not rest on the lock: it orders the
renames, and a rename decides by itself.
-/

namespace Triage

open FileSystem (maxPath maxName absoluteText)

namespace Quarantine

/-! ## An item that waits -/

/-- The directory `item` waits for a decision, and nothing is in its place below the approved items.
All other entries may be anything. -/
structure Places.Awaits (p : Places) (q : Quarantine) (fs : FileSystem) (s : Stock) (id : Text)
    (item : Node) : Prop where
  leads : p.Leads q fs
  unique : Node.UniqueNames s.quarantined
  isValid : ItemId.isValid id
  isDirectory : ∃ es, item = .directory es
  quarantined : s.quarantined.lookup id = some item
  free : s.approved.lookup id = none

/-- The system takes the paths that the call uses, and a rejection finds its tombstone free. -/
def Call.HasRoom (p : Places) (q : Quarantine) (s : Stock) : Call → Prop
  | .approve id => (absoluteText (p.root ++ [id])).length ≤ maxPath ∧
      (absoluteText (p.approved ++ [id])).length ≤ maxPath
  | .reject id process count => (absoluteText (p.root ++ [id])).length ≤ maxPath ∧
      (tombName id (mark process count)).length ≤ maxName ∧
      (q.tombstone id (mark process count)).length ≤ maxPath ∧
      s.quarantined.lookup (tombName id (mark process count)) = none

/-! ## Stages -/

/-- Where the item is. -/
inductive Stage where
  | waiting
  | approved
  /-- It was renamed by the rejection of this mark, and is not deleted yet. -/
  | buried (mark : Text)
  | gone
  deriving DecidableEq

/-- What stands below the roots in a stage. -/
def Stage.stock (s : Stock) (id : Text) (item : Node) : Stage → Stock
  | waiting => s
  | approved => ⟨Node.setEntry id none s.quarantined, Node.setEntry id (some item) s.approved⟩
  | buried mark => { s with
      quarantined := Node.setEntry (tombName id mark) (some item)
        (Node.setEntry id none s.quarantined) }
  | gone => { s with quarantined := Node.setEntry id none s.quarantined }

variable {p : Places} {q : Quarantine} {fs : FileSystem} {s : Stock} {id : Text} {item : Node}
variable {φ : Stage}

theorem Places.Awaits.isName (h : p.Awaits q fs s id item) : Path.IsName id :=
  ItemId.isName_of_isValid h.isValid

/-- Once it is moved, the item is not in its place any more. -/
theorem Places.Awaits.lookup_quarantined (h : p.Awaits q fs s id item) (hφ : φ ≠ .waiting) :
    (φ.stock s id item).quarantined.lookup id = none := by
  have hgone := h.unique.lookup_setEntry_none id
  cases φ with
  | waiting => exact absurd rfl hφ
  | approved | gone => exact hgone
  | buried mark => exact (Node.lookup_setEntry_of_ne (tombName_ne h.isValid mark).symm).trans hgone

theorem Places.Awaits.lookup_approved (h : p.Awaits q fs s id item) (hφ : φ ≠ .approved) :
    (φ.stock s id item).approved.lookup id = none := by
  cases φ with
  | approved => exact absurd rfl hφ
  | waiting | buried | gone => exact h.free

/-- In no stage is the item below both roots. -/
theorem Places.Awaits.not_both (h : p.Awaits q fs s id item) (φ : Stage) :
    (p.stock fs (φ.stock s id item)).nodeAt? (p.root ++ [id]) = none ∨
      (p.stock fs (φ.stock s id item)).nodeAt? (p.approved ++ [id]) = none := by
  rw [FileSystem.nodeAt?_concat (h.leads.nodeAt?_root _),
    FileSystem.nodeAt?_concat (h.leads.nodeAt?_approved _)]
  by_cases hφ : φ = .approved
  · exact Or.inl (h.lookup_quarantined (by simp [hφ]))
  · exact Or.inr (h.lookup_approved hφ)

/-! ## What the steps of a call find -/

namespace Places.Awaits

variable (h : p.Awaits q fs s id item)

include h

theorem zero_not_mem_root : 0 ∉ absoluteText (p.root ++ [id]) :=
  (h.leads.rootNames.concat h.isName).zero_not_mem_absoluteText

theorem zero_not_mem_approved : 0 ∉ absoluteText (p.approved ++ [id]) :=
  (h.leads.approvedNames.concat h.isName).zero_not_mem_absoluteText

theorem zero_not_mem_tombstone (process count : UInt32) :
    0 ∉ q.tombstone id (mark process count) :=
  (isPiece_tombName h.isValid process count).not_mem_join (by decide) h.leads.rootNoZero
    (zero_not_mem_tombName h.isValid process count)

theorem resolvePath_root (hlength : (absoluteText (p.root ++ [id])).length ≤ maxPath) :
    QuarantineStep.resolvePath (p.stock fs s) q.root id = .ok (absoluteText (p.root ++ [id])) := by
  refine h.leads.resolvePath_root s h.isValid (fun n hn => ?_) hlength
  obtain rfl : item = n := Option.some.inj (h.quarantined.symm.trans hn)
  exact h.isDirectory

theorem resolvePath_approved (hlength : (absoluteText (p.approved ++ [id])).length ≤ maxPath) :
    QuarantineStep.resolvePath (p.stock fs s) q.approvedRoot id =
      .ok (absoluteText (p.approved ++ [id])) := by
  refine h.leads.resolvePath_approved s h.isValid (fun n hn => ?_) hlength
  rw [h.free] at hn
  contradiction

theorem path_of_resolve_root {path : Text}
    (hpath : QuarantineStep.resolvePath (p.stock fs (φ.stock s id item)) q.root id = .ok path) :
    path = absoluteText (p.root ++ [id]) := by
  rw [← h.leads.rootNames.join_absoluteText h.isName]
  exact QuarantineStep.path_of_resolvePath (h.leads.leadsTo_root _) hpath

theorem path_of_resolve_approved {path : Text}
    (hpath : QuarantineStep.resolvePath (p.stock fs (φ.stock s id item)) q.approvedRoot id =
      .ok path) : path = absoluteText (p.approved ++ [id]) := by
  rw [← h.leads.approvedNames.join_absoluteText h.isName]
  exact QuarantineStep.path_of_resolvePath (h.leads.leadsTo_approved _) hpath

theorem entryExists_root (hlength : (absoluteText (p.root ++ [id])).length ≤ maxPath) :
    (p.stock fs s).entryExists (absoluteText (p.root ++ [id])) = true := by
  rw [FileSystem.entryExists_of_locate (h.leads.locate_root s h.isName hlength), h.quarantined]
  rfl

theorem openPath_root (hlength : (absoluteText (p.root ++ [id])).length ≤ maxPath) :
    QuarantineStep.openPath (p.stock fs s) (absoluteText (p.root ++ [id])) = .ok () := by
  obtain ⟨es, rfl⟩ := h.isDirectory
  exact h.leads.openPath_root s h.isName h.quarantined hlength

/-- Once it is moved, no rename finds the item. -/
theorem renameNew_settled (hφ : φ ≠ .waiting) {target : Text} {fs' : FileSystem} :
    (p.stock fs (φ.stock s id item)).renameNew (absoluteText (p.root ++ [id])) target ≠
      .ok fs' := by
  intro hok
  obtain ⟨old, n, new, hsource, -, -⟩ := FileSystem.renameNew_eq_ok hok
  have hlength := (FileSystem.fits_of_locate h.zero_not_mem_root hsource).length_le
  rw [h.leads.locate_root _ h.isName hlength, h.lookup_quarantined hφ] at hsource
  exact nomatch hsource

theorem renameNew_approve (hroom : (Call.approve id).HasRoom p q s) :
    (p.stock fs s).renameNew (absoluteText (p.root ++ [id])) (absoluteText (p.approved ++ [id])) =
      .ok (p.stock fs (Stage.approved.stock s id item)) :=
  h.leads.renameNew_approved s h.isName hroom.1 hroom.2 h.quarantined h.free

/-- An approval whose rename succeeds had room for it. -/
theorem hasRoom_approve {fs' : FileSystem}
    (hok : (p.stock fs s).renameNew (absoluteText (p.root ++ [id]))
      (absoluteText (p.approved ++ [id])) = .ok fs') : (Call.approve id).HasRoom p q s := by
  obtain ⟨old, n, new, hsource, htarget, -⟩ := FileSystem.renameNew_eq_ok hok
  exact ⟨(FileSystem.fits_of_locate h.zero_not_mem_root hsource).length_le,
    (FileSystem.fits_of_locate h.zero_not_mem_approved htarget).length_le⟩

theorem renameNew_reject {process count : UInt32}
    (hroom : (Call.reject id process count).HasRoom p q s) :
    (p.stock fs s).renameNew (absoluteText (p.root ++ [id]))
        (q.tombstone id (mark process count)) =
      .ok (p.stock fs ((Stage.buried (mark process count)).stock s id item)) := by
  obtain ⟨hroot, hname, htomb, hfree⟩ := hroom
  exact h.leads.renameNew_root s h.isName (isName_tombName_of_length h.isValid hname)
    (tombName_ne h.isValid _) hroot htomb h.quarantined hfree

/-- A rejection whose rename succeeds had room for it. -/
theorem hasRoom_reject {process count : UInt32} {fs' : FileSystem}
    (hok : (p.stock fs s).renameNew (absoluteText (p.root ++ [id]))
      (q.tombstone id (mark process count)) = .ok fs') :
    (Call.reject id process count).HasRoom p q s := by
  obtain ⟨old, n, new, hsource, htarget, -⟩ := FileSystem.renameNew_eq_ok hok
  have hzero := h.zero_not_mem_tombstone process count
  have htomb := (FileSystem.fits_of_locate hzero htarget).length_le
  have hname : (tombName id (mark process count)).length ≤ maxName := by
    refine FileSystem.length_le_of_locate hzero htarget _ ?_
    rw [tombstone_eq, (isPiece_tombName h.isValid process count).names_join]
    exact List.mem_append_right _ (List.mem_singleton_self _)
  have hfound := h.leads.locate_join_root s (isName_tombName_of_length h.isValid hname) htomb
  rw [tombstone_eq, hfound] at htarget
  exact ⟨(FileSystem.fits_of_locate h.zero_not_mem_root hsource).length_le, hname, htomb,
    (Location.mk.inj (Except.ok.inj htarget)).2⟩

/-- The rejection that has moved the item can delete it. -/
theorem removeTree_buried {process count : UInt32}
    (hroom : (Call.reject id process count).HasRoom p q s) :
    (p.stock fs ((Stage.buried (mark process count)).stock s id item)).removeTree
        (q.tombstone id (mark process count)) =
      .ok (p.stock fs (Stage.gone.stock s id item)) := by
  obtain ⟨-, hname, htomb, hfree⟩ := hroom
  have hfree' : (Node.setEntry id none s.quarantined).lookup (tombName id (mark process count)) =
      none := (Node.lookup_setEntry_of_ne (tombName_ne h.isValid _)).trans hfree
  refine (h.leads.removeTree_root _ (isName_tombName_of_length h.isValid hname) htomb
    (Node.lookup_setEntry_some _ item _)).trans ?_
  simp only [Stage.stock, Node.setEntry_setEntry, Node.setEntry_none_of_lookup hfree']

end Places.Awaits

/-! ## Roles -/

/-- What has become of a call. -/
inductive Role where
  /-- It knows of nothing that has become of the item. -/
  | contender
  | loser
  /-- It has moved the item and brought it into this stage. -/
  | winner (φ : Stage)

/-- How a caller turns its role and the stage into others. It may give up if the item does not wait
any more, and also if it has no room; without room it does not win. -/
inductive Role.Goes (hasRoom : Prop) : Role → Stage → Role → Stage → Prop where
  | stays (role : Role) (φ : Stage) : Goes hasRoom role φ role φ
  | loses {φ : Stage} (h : φ = .waiting → ¬hasRoom) : Goes hasRoom .contender φ .loser φ
  | wins {φ : Stage} (hroom : hasRoom) (h : φ ≠ .waiting) :
    Goes hasRoom .contender .waiting (.winner φ) φ
  | finishes {φ φ' : Stage} (h : φ' ≠ .waiting) :
    Goes hasRoom (.winner φ) φ (.winner φ') φ'

/-- The stages that a caller of a role can meet. -/
def Role.Meets (hasRoom : Prop) : Role → Stage → Prop
  | .contender, _ => True
  | .loser, φ => φ = .waiting → ¬hasRoom
  | .winner φ', φ => φ' = φ ∧ φ ≠ .waiting ∧ hasRoom

variable {n : Nat} {hasRoom : Fin n → Prop}

/-- Every caller can meet the stage, and if the item does not wait any more, there is one winner. -/
structure Agreed (hasRoom : Fin n → Prop) (φ : Stage) (roles : Fin n → Role) : Prop where
  meets : ∀ i, (roles i).Meets (hasRoom i) φ
  single : ∀ i j φi φj, roles i = .winner φi → roles j = .winner φj → i = j
  settled : φ ≠ .waiting → ∃ i, roles i = .winner φ

theorem agreed_winner {roles : Fin n → Role} {i : Fin n} (hroom : hasRoom i) (hφ : φ ≠ .waiting)
    (hothers : ∀ j, j ≠ i → ∀ φj, roles j ≠ .winner φj) :
    Agreed hasRoom φ (Function.update roles i (.winner φ)) := by
  have hwinner : ∀ j φj, Function.update roles i (.winner φ) j = .winner φj → j = i := by
    intro j φj hj
    by_contra hne
    rw [Function.update_of_ne hne] at hj
    exact hothers j hne φj hj
  refine ⟨fun j => ?_, ?_, fun _ => ⟨i, Function.update_self ..⟩⟩
  · by_cases hj : j = i
    · subst hj
      rw [Function.update_self]
      exact ⟨rfl, hφ, hroom⟩
    · rw [Function.update_of_ne hj]
      cases hrole : roles j with
      | contender => trivial
      | loser => exact fun h => absurd h hφ
      | winner φj => exact absurd hrole (hothers j hj φj)
  · intro j k φj φk hj hk
    rw [hwinner j φj hj, hwinner k φk hk]

theorem Agreed.update {φ' : Stage} {roles : Fin n → Role} {i : Fin n} {role : Role}
    (h : Agreed hasRoom φ roles) (hgoes : (roles i).Goes (hasRoom i) φ role φ') :
    Agreed hasRoom φ' (Function.update roles i role) := by
  generalize hi : roles i = before at hgoes
  cases hgoes with
  | stays =>
    rw [← hi, Function.update_eq_self]
    exact h
  | loses hφ =>
    -- A loser takes the place of a contender, so the winners are the same.
    have hwinner : ∀ j φj,
        Function.update roles i .loser j = .winner φj ↔ roles j = .winner φj := by
      intro j φj
      by_cases hj : j = i
      · subst hj
        simp [hi]
      · rw [Function.update_of_ne hj]
    refine ⟨fun j => ?_, ?_, ?_⟩
    · by_cases hj : j = i
      · subst hj
        rw [Function.update_self]
        exact hφ
      · rw [Function.update_of_ne hj]
        exact h.meets j
    · simpa only [hwinner] using h.single
    · simpa only [hwinner] using h.settled
  | wins hroom hφ' =>
    refine agreed_winner hroom hφ' fun j _ φj hj => ?_
    have hmeets := h.meets j
    rw [hj] at hmeets
    exact hmeets.2.1 rfl
  | finishes hφ' =>
    have hmeets := h.meets i
    rw [hi] at hmeets
    exact agreed_winner hmeets.2.2 hφ' fun j hne φj hj => hne (h.single j i _ _ hj hi)

/-- The protocol of a race for an item. -/
def settling (p : Places) (fs : FileSystem) (s : Stock) (id : Text) (item : Node)
    (hasRoom : Fin n → Prop) : Protocol n Stage Role where
  files φ := p.stock fs (φ.stock s id item)
  Agrees := Agreed hasRoom
  Moves i role φ role' φ' := role.Goes (hasRoom i) φ role' φ'
  agrees_update := Agreed.update

/-! ## A call in the race -/

/-- What becomes of the item if the call wins. -/
def Call.verdict : Call → Stage
  | .approve _ => .approved
  | .reject .. => .gone

/-- How a call ends in a role. There is no other end for a contender than to win or to lose. -/
def Call.Ends (c : Call) : Role → Handle → Except QuarantineError Unit → Prop
  | .contender, _, _ => False
  | .loser, handle, outcome => handle = .closed ∧ ∃ e, outcome = .error e
  | .winner φ, handle, outcome => handle = .closed ∧ outcome = .ok () ∧ φ = c.verdict

theorem Call.Ends.handle_eq {c : Call} {role : Role} {handle : Handle}
    {outcome : Except QuarantineError Unit} (h : c.Ends role handle outcome) :
    handle = .closed := by
  cases role with
  | contender => exact h.elim
  | loser | winner => exact h.1

/-- A call that has ended has lost or won. -/
theorem Call.Ends.lost_or_won {c : Call} {role : Role} {handle : Handle}
    {outcome : Except QuarantineError Unit} (h : c.Ends role handle outcome) :
    (role = .loser ∧ ∃ e, outcome = .error e) ∨
      (role = .winner c.verdict ∧ outcome = .ok ()) := by
  cases role with
  | contender => exact h.elim
  | loser => exact Or.inl ⟨rfl, h.2⟩
  | winner φ =>
    obtain ⟨-, hok, rfl⟩ := h
    exact Or.inr ⟨rfl, hok⟩

section

variable {α : Type} {i : Fin n} {handle : Handle}
variable {ends : Role → Handle → Except QuarantineError α → Prop}

/-- A contender that looks for the path of the item finds it or has lost. -/
theorem upholds_resolve_path {root : Text} (path : Text) {next : Text → Attempt α}
    (hpath : ∀ φ found, QuarantineStep.resolvePath (p.stock fs (Stage.stock s id item φ)) root id =
      .ok found → found = path)
    (hwaits : hasRoom i → QuarantineStep.resolvePath (p.stock fs s) root id = .ok path)
    (hnext : (settling p fs s id item hasRoom).Upholds i ends (next path).run .contender handle)
    (hlost : ∀ e, ends .loser handle (.error e)) :
    (settling p fs s id item hasRoom).Upholds i ends (Attempt.resolve root id >>= next).run
      .contender handle := by
  refine Protocol.upholds_resolve fun φ _ => ?_
  cases hresolve : QuarantineStep.resolvePath ((settling p fs s id item hasRoom).files φ) root
    id with
  | ok found =>
    obtain rfl := hpath φ found hresolve
    exact ⟨.contender, .stays _ _, hnext⟩
  | error e =>
    refine ⟨.loser, .loses ?_, hlost e⟩
    intro hφ hi
    subst hφ
    exact nomatch (hwaits hi).symm.trans hresolve

/-- After the rename, a caller gives up the lock and ends. -/
theorem upholds_unlock {path : Text} {outcome : Except FileError Unit}
    {meaning : FileError → QuarantineError} {role : Role}
    {ends : Role → Handle → Except QuarantineError Unit → Prop}
    (hends : ends role .closed (outcome.mapError meaning)) :
    (settling p fs s id item hasRoom).Upholds i ends
      (Attempt.ask (.unlock path) >>= fun _ => Attempt.must (pure outcome) meaning).run role
        handle := by
  refine Protocol.upholds_ask trivial fun φ _ => ⟨φ, (), rfl, ?_⟩
  intro after hafter
  subst hafter
  refine ⟨role, .stays _ _, Protocol.upholds_must.mpr ?_⟩
  cases outcome with
  | ok => exact hends
  | error e => exact hends

variable (h : p.Awaits q fs s id item)

include h

theorem upholds_makeRoots {next : Unit → Attempt α} {role : Role}
    (hnext : (settling p fs s id item hasRoom).Upholds i ends (next ()).run role handle) :
    (settling p fs s id item hasRoom).Upholds i ends (q.makeRoots >>= next).run role handle := by
  refine Protocol.upholds_bind.mpr (Protocol.upholds_bind.mpr (Protocol.upholds_must.mpr ?_))
  refine ⟨trivial, fun φ _ => ⟨φ, .ok (), h.leads.makeRoot_root _, ?_⟩⟩
  intro after hafter
  subst hafter
  refine ⟨role, .stays _ _, Protocol.upholds_must.mpr ?_⟩
  refine ⟨trivial, fun φ _ => ⟨φ, .ok (), h.leads.makeRoot_approved _, ?_⟩⟩
  intro after hafter
  subst hafter
  exact ⟨role, .stays _ _, hnext⟩

/-- A contender that looks for the item finds it or has lost. -/
theorem upholds_exists_item {next : Bool → Attempt α}
    (hroot : hasRoom i → (absoluteText (p.root ++ [id])).length ≤ maxPath)
    (hfound : (settling p fs s id item hasRoom).Upholds i ends (next true).run .contender handle)
    (hlost : (settling p fs s id item hasRoom).Upholds i ends (next false).run .loser handle) :
    (settling p fs s id item hasRoom).Upholds i ends
      (Attempt.ask (.exists (absoluteText (p.root ++ [id]))) >>= next).run .contender handle := by
  refine Protocol.upholds_exists fun φ _ => ?_
  cases hexists : ((settling p fs s id item hasRoom).files φ).entryExists
    (absoluteText (p.root ++ [id])) with
  | false =>
    refine ⟨.loser, .loses ?_, hlost⟩
    intro hφ hi
    subst hφ
    exact nomatch (h.entryExists_root (hroot hi)).symm.trans hexists
  | true => exact ⟨.contender, .stays _ _, hfound⟩

/-- Of the renames of an item, the first one wins if it has room, and all others lose. -/
theorem upholds_moveItem {target : Text} {meaning : FileError → QuarantineError} (moved : Stage)
    (hmoved : moved ≠ .waiting)
    (hroot : hasRoom i → (absoluteText (p.root ++ [id])).length ≤ maxPath)
    (hrename : hasRoom i → (p.stock fs s).renameNew (absoluteText (p.root ++ [id])) target =
      .ok (p.stock fs (moved.stock s id item)))
    (hroom : ∀ fs', (p.stock fs s).renameNew (absoluteText (p.root ++ [id])) target = .ok fs' →
      hasRoom i)
    {ends : Role → Handle → Except QuarantineError Unit → Prop}
    (hwon : ends (.winner moved) .closed (.ok ())) (hlost : ∀ e, ends .loser .closed (.error e)) :
    (settling p fs s id item hasRoom).Upholds i ends
      (moveItem (absoluteText (p.root ++ [id])) target meaning).run .contender .closed := by
  refine Protocol.upholds_bind.mpr (Protocol.upholds_bind.mpr (Protocol.upholds_must.mpr ?_))
  refine ⟨trivial, fun φ _ => ⟨φ, _, rfl, fun after hafter => ?_⟩⟩
  -- The lock is taken on what the path leads to at that moment, so others may have been first.
  cases hopen : QuarantineStep.openPath ((settling p fs s id item hasRoom).files φ)
    (absoluteText (p.root ++ [id])) with
  | error e =>
    rw [hopen] at hafter
    subst hafter
    refine ⟨.loser, .loses ?_, hlost _⟩
    intro hφ hi
    subst hφ
    exact nomatch (h.openPath_root (hroot hi)).symm.trans hopen
  | ok =>
    rw [hopen] at hafter
    obtain ⟨d, rfl⟩ := hafter
    refine ⟨.contender, .stays _ _, ⟨d, rfl⟩, fun φ _ => ⟨φ, (), rfl, ?_⟩⟩
    intro after hafter
    obtain ⟨_, -, rfl⟩ := hafter
    refine ⟨.contender, .stays _ _, Protocol.upholds_ask trivial fun φ _ => ?_⟩
    cases hresult : ((settling p fs s id item hasRoom).files φ).renameNew
      (absoluteText (p.root ++ [id])) target with
    | error e =>
      refine ⟨φ, .error e, QuarantineStep.perform_rename_error hresult, ?_⟩
      intro after hafter
      subst hafter
      refine ⟨.loser, .loses ?_, upholds_unlock (hlost _)⟩
      intro hφ hi
      subst hφ
      exact nomatch (hrename hi).symm.trans hresult
    | ok fs' =>
      -- Only the item that waits can be found.
      obtain rfl : φ = .waiting := by
        by_contra hφ
        exact h.renameNew_settled hφ hresult
      have hi := hroom fs' hresult
      refine ⟨moved, .ok (), QuarantineStep.perform_rename (hrename hi), ?_⟩
      intro after hafter
      subst hafter
      exact ⟨.winner moved, .wins hi hmoved, upholds_unlock hwon⟩

end

theorem upholds_approve {i : Fin n} (h : p.Awaits q fs s id item)
    (hroom : hasRoom i ↔ (Call.approve id).HasRoom p q s) :
    (settling p fs s id item hasRoom).Upholds i (Call.approve id).Ends (q.approve id).run .contender
      .closed := by
  have hlost : ∀ e, (Call.approve id).Ends .loser .closed (.error e) := fun e => ⟨rfl, e, rfl⟩
  refine upholds_resolve_path _ (fun φ _ => h.path_of_resolve_root)
    (fun hi => h.resolvePath_root (hroom.mp hi).1) ?_ hlost
  refine upholds_resolve_path _ (fun φ _ => h.path_of_resolve_approved)
    (fun hi => h.resolvePath_approved (hroom.mp hi).2) ?_ hlost
  refine upholds_exists_item h (fun hi => (hroom.mp hi).1) ?_ ?_
  · refine upholds_makeRoots h ?_
    exact upholds_moveItem h .approved (by decide) (fun hi => (hroom.mp hi).1)
      (fun hi => h.renameNew_approve (hroom.mp hi)) (fun _ hok => hroom.mpr (h.hasRoom_approve hok))
      ⟨rfl, rfl, rfl⟩ hlost
  · refine Protocol.upholds_exists fun φ _ => ⟨.loser, .stays _ _, ?_⟩
    split
    · exact hlost _
    · exact hlost _

theorem upholds_reject {i : Fin n} (h : p.Awaits q fs s id item) {process count : UInt32}
    (hroom : hasRoom i ↔ (Call.reject id process count).HasRoom p q s) :
    (settling p fs s id item hasRoom).Upholds i (Call.reject id process count).Ends
      (q.reject (mark process count) id).run .contender .closed := by
  have hlost : ∀ e, (Call.reject id process count).Ends .loser .closed (.error e) :=
    fun e => ⟨rfl, e, rfl⟩
  refine Protocol.upholds_bind.mpr ?_
  refine upholds_resolve_path _ (fun φ _ => h.path_of_resolve_root)
    (fun hi => h.resolvePath_root (hroom.mp hi).1) ?_ hlost
  refine upholds_exists_item h (fun hi => (hroom.mp hi).1) ?_ ?_
  · refine Protocol.upholds_bind.mpr ?_
    refine upholds_moveItem h (.buried (mark process count)) (by simp) (fun hi => (hroom.mp hi).1)
      (fun hi => h.renameNew_reject (hroom.mp hi)) (fun _ hok => hroom.mpr (h.hasRoom_reject hok))
      ?_ hlost
    -- Nobody else has a part in the tombstone.
    refine Protocol.upholds_must.mpr ⟨trivial, fun φ hφ => ?_⟩
    obtain ⟨roles, hagreed, hrole⟩ := hφ
    have hmeets := hagreed.meets i
    rw [hrole] at hmeets
    obtain ⟨rfl, -, hi⟩ := hmeets
    have hremoved := h.removeTree_buried (hroom.mp hi)
    refine ⟨.gone, .ok (), QuarantineStep.perform_removeTree hremoved, ?_⟩
    intro after hafter
    subst hafter
    exact ⟨.winner .gone, .finishes (by simp), rfl, rfl, rfl⟩
  · refine Protocol.upholds_resolve fun φ _ => ⟨.loser, .stays _ _, ?_⟩
    split
    · refine Protocol.upholds_exists fun φ _ => ⟨.loser, .stays _ _, ?_⟩
      split
      · exact hlost _
      · exact hlost _
    · exact hlost _

/-! ## The race -/

section

variable {calls : Fin n → Call} {r : Race n (Except QuarantineError Unit)}

/-- The race of some calls. -/
def race (q : Quarantine) (fs : FileSystem) (calls : Fin n → Call) :
    Race n (Except QuarantineError Unit) :=
  .start fs fun i => ((calls i).attempt q).run

/-- The protocol of a race of calls for an item. -/
def contest (p : Places) (q : Quarantine) (fs : FileSystem) (s : Stock) (id : Text) (item : Node)
    (calls : Fin n → Call) : Protocol n Stage Role :=
  settling p fs s id item fun i => (calls i).HasRoom p q s

theorem governs_race (h : p.Awaits q fs s id item)
    (hroot : fs.nodeAt? p.root = some (.directory s.quarantined))
    (happroved : fs.nodeAt? p.approved = some (.directory s.approved))
    (hcalls : ∀ i, (calls i).id = id) :
    (contest p q fs s id item calls).Governs (fun i => (calls i).Ends) (race q fs calls) := by
  have hstart : Agreed (fun i => (calls i).HasRoom p q s) .waiting fun _ => .contender :=
    ⟨fun _ => trivial, fun _ _ _ _ hi => Role.noConfusion hi, fun hne => absurd rfl hne⟩
  refine ⟨.waiting, fun _ => .contender, (Places.stock_self hroot happroved).symm, hstart, ?_⟩
  intro i
  have hroom : (fun i => (calls i).HasRoom p q s) i ↔ (calls i).HasRoom p q s := Iff.rfl
  have hid := hcalls i
  show (contest p q fs s id item calls).Upholds i (calls i).Ends ((calls i).attempt q).run
    .contender .closed
  cases hcall : calls i with
  | approve id' =>
    rw [hcall] at hid hroom
    obtain rfl : id' = id := hid
    exact upholds_approve h hroom
  | reject id' process count =>
    rw [hcall] at hid hroom
    obtain rfl : id' = id := hid
    exact upholds_reject h hroom

/-- A call that succeeds had room. -/
theorem hasRoom_of_outcome {i : Fin n}
    (h : (contest p q fs s id item calls).Governs (fun i => (calls i).Ends) r)
    (hok : r.outcome? i = some (.ok ())) : (calls i).HasRoom p q s := by
  obtain ⟨φ, roles, -, hagreed, hupholds⟩ := h
  have hmeets := hagreed.meets i
  obtain ⟨-, e, he⟩ | ⟨hrole, -⟩ := ((hupholds i).ends_of_outcome? hok).lost_or_won
  · contradiction
  · rw [hrole] at hmeets
    exact hmeets.2.2

/-- Once all calls are done, one of them has won and the others have lost. -/
theorem exists_winner (h : (contest p q fs s id item calls).Governs (fun i => (calls i).Ends) r)
    (hroom : ∃ i, (calls i).HasRoom p q s) (hdone : ∀ i, ∃ outcome, r.outcome? i = some outcome) :
    ∃ winner, r.files = p.stock fs (Stage.stock s id item (calls winner).verdict) ∧
      r.outcome? winner = some (.ok ()) ∧
      ∀ i, i ≠ winner → ∃ e, r.outcome? i = some (.error e) := by
  obtain ⟨φ, roles, hfiles, hagreed, hupholds⟩ := h
  -- A call that has room does not give up as long as the item waits.
  have hsettled : φ ≠ .waiting := by
    obtain ⟨i, hi⟩ := hroom
    obtain ⟨outcome, houtcome⟩ := hdone i
    have hmeets := hagreed.meets i
    obtain ⟨hrole, -⟩ | ⟨hrole, -⟩ := ((hupholds i).ends_of_outcome? houtcome).lost_or_won
    · rw [hrole] at hmeets
      exact fun hφ => hmeets hφ hi
    · rw [hrole] at hmeets
      exact hmeets.2.1
  obtain ⟨winner, hwinner⟩ := hagreed.settled hsettled
  obtain ⟨outcome, houtcome⟩ := hdone winner
  have hend := (hupholds winner).ends_of_outcome? houtcome
  rw [hwinner] at hend
  obtain ⟨-, rfl, rfl⟩ := hend
  refine ⟨winner, hfiles, houtcome, fun i hi => ?_⟩
  obtain ⟨outcome, houtcome⟩ := hdone i
  obtain ⟨-, e, rfl⟩ | ⟨hrole, -⟩ := ((hupholds i).ends_of_outcome? houtcome).lost_or_won
  · exact ⟨e, houtcome⟩
  · exact absurd (hagreed.single i winner _ _ hrole hwinner) hi

/-- Of the calls that race for an item, one wins and all others fail, if any of them has room to
move it. -/
theorem settles_once (h : p.Awaits q fs s id item)
    (hroot : fs.nodeAt? p.root = some (.directory s.quarantined))
    (happroved : fs.nodeAt? p.approved = some (.directory s.approved))
    (hcalls : ∀ i, (calls i).id = id) (hroom : ∃ i, (calls i).HasRoom p q s) :
    (∀ run : Nat → Race n (Except QuarantineError Unit), run 0 = race q fs calls →
      ¬∀ k, (run k).Step (run (k + 1))) ∧
    ∀ r, (race q fs calls).Reaches r →
      (r.files.nodeAt? (p.root ++ [id]) = none ∨ r.files.nodeAt? (p.approved ++ [id]) = none) ∧
      ((∃ r', r.Step r') ∨
        ∃ winner, r.outcome? winner = some (.ok ()) ∧
          (∀ i, i ≠ winner → ∃ e, r.outcome? i = some (.error e)) ∧
          match calls winner with
          | .approve _ => r.files = p.stock fs (Stage.approved.stock s id item) ∧
              r.files.nodeAt? (p.approved ++ [id]) = some item
          | .reject .. => r.files = p.stock fs (Stage.gone.stock s id item) ∧
              r.files.nodeAt? (p.root ++ [id]) = none ∧
              r.files.nodeAt? (p.approved ++ [id]) = none) := by
  refine ⟨fun run _ => Race.not_forall_step run, fun r hreaches => ?_⟩
  have hgoverns := (governs_race h hroot happroved hcalls).reaches hreaches
  constructor
  · obtain ⟨φ, _, hfiles, -⟩ := hgoverns
    rw [hfiles]
    exact h.not_both φ
  · refine (hgoverns.progress fun i role handle outcome hend d => ?_).imp_right fun hdone => ?_
    · rw [Call.Ends.handle_eq hend]
      exact Handle.noConfusion
    · obtain ⟨winner, hfiles, hwon, hlost⟩ := exists_winner hgoverns hroom hdone
      refine ⟨winner, hwon, hlost, ?_⟩
      have hquarantined := fun s => FileSystem.nodeAt?_concat (h.leads.nodeAt?_root s) id
      have happroved := fun s => FileSystem.nodeAt?_concat (h.leads.nodeAt?_approved s) id
      cases hcall : calls winner with
      | approve =>
        rw [hcall] at hfiles
        rw [hfiles, Call.verdict, happroved]
        exact ⟨rfl, Node.lookup_setEntry_some _ _ _⟩
      | reject =>
        rw [hcall] at hfiles
        rw [hfiles, Call.verdict, hquarantined, happroved]
        exact ⟨rfl, h.lookup_quarantined Stage.noConfusion, h.free⟩

end

/-! ## A race for one item -/

theorem oneItem_awaits {q : Quarantine} (h : besideRoots.Leads q oneItemFiles) :
    besideRoots.Awaits q oneItemFiles oneItem "a".ascii Node.empty where
  leads := h
  unique := oneItem_sound.quarantined
  isValid := by decide
  isDirectory := ⟨[], rfl⟩
  quarantined := rfl
  free := rfl

/-- An approval and a rejection. -/
def approveAndReject (i : Fin 2) : Call :=
  if i = 0 then .approve "a".ascii else .reject "a".ascii 1 0

/-- Both callers find the item and open it before the approval moves it. -/
theorem play_approveAndReject :
    ((race ⟨"q".ascii, "p".ascii⟩ oneItemFiles approveAndReject).play
      [0, 0, 0, 1, 1, 0, 0, 0, 1, 0, 0, 0, 1, 1, 1]).map
        (fun r => decide (∀ i, (r.outcome? i).isSome)) = some true := by
  cbv

theorem settles_once_oneItem :
    ∃ r, (race ⟨"q".ascii, "p".ascii⟩ oneItemFiles approveAndReject).Reaches r ∧
      ∃ winner, r.outcome? winner = some (.ok ()) ∧
        ∀ i, i ≠ winner → ∃ e, r.outcome? i = some (.error e) := by
  have hcalls : ∀ i, (approveAndReject i).id = "a".ascii := by decide
  have hroom : (approveAndReject 0).HasRoom besideRoots ⟨"q".ascii, "p".ascii⟩ oneItem :=
    ⟨by decide, by decide⟩
  have hawaits := oneItem_awaits besideRoots_hold.leads
  obtain ⟨-, hrace⟩ := settles_once hawaits rfl rfl hcalls ⟨0, hroom⟩
  obtain ⟨r, hplay, hdone⟩ := Option.map_eq_some_iff.mp play_approveAndReject
  have hreaches := Race.reaches_of_play hplay
  refine ⟨r, hreaches, ?_⟩
  obtain ⟨-, ⟨r', hstep⟩ | ⟨winner, hwon, hlost, -⟩⟩ := hrace r hreaches
  · obtain ⟨i, hi⟩ := hstep.exists_none
    have hsome := of_decide_eq_true hdone i
    rw [hi] at hsome
    contradiction
  · exact ⟨winner, hwon, hlost⟩

/-! ## Where races do not settle -/

/-- A path to `q` with many dots, so that a tombstone below it has no path that is short enough. -/
def dotted (k : Nat) : Quarantine := ⟨(List.replicate k "./".ascii).flatten ++ "q".ascii, "p".ascii⟩

theorem dotted_fits {k : Nat} (hk : 2 * k + 1 ≤ maxPath) : FileSystem.Fits (dotted k).root :=
  FileSystem.fits_dotted isName_q hk

theorem dotted_leads {k : Nat} (hk : 2 * k + 1 ≤ maxPath) :
    besideRoots.Leads (dotted k) oneItemFiles :=
  { besideRoots_hold.leads with
    rootLeads := FileSystem.leadsTo_dotted isName_q hk rfl rfl
    rootNoZero := (dotted_fits hk).noZero }

/-- Two approvals, of which one looks for the item before the other moves it, and makes the roots
after that. -/
theorem play_throughItem :
    ((race throughItem oneItemFiles fun _ : Fin 2 => .approve "a".ascii).play
      [1, 1, 1, 0, 0, 0, 0, 0, 0, 0, 0, 1]).map Race.files =
      some ⟨.directory [("q".ascii, .directory [("a".ascii, Node.empty)]),
        ("p".ascii, .directory [("a".ascii, Node.empty)])], []⟩ := by
  cbv

/-- A lone rejection fails if its tombstone has no path that is short enough. And if the path of a
root leads through the item, an approval that makes the roots makes the item anew after another one
has moved it: then it is below both roots. -/
theorem race_unsettled :
    (besideRoots.Leads (dotted 2042) oneItemFiles ∧
      ∀ r, (race (dotted 2042) oneItemFiles fun _ : Fin 1 => .reject "a".ascii 1 0).Reaches r →
        ∀ i, r.outcome? i ≠ some (.ok ())) ∧
    oneItemFiles.LeadsTo throughItem.root besideRoots.root oneItem.quarantined ∧
    oneItemFiles.LeadsTo throughItem.approvedRoot besideRoots.approved oneItem.approved ∧
    ∃ r, (race throughItem oneItemFiles fun _ : Fin 2 => .approve "a".ascii).Reaches r ∧
      r.files.nodeAt? (besideRoots.root ++ ["a".ascii]) = some Node.empty ∧
      r.files.nodeAt? (besideRoots.approved ++ ["a".ascii]) = some Node.empty := by
  have hleads := dotted_leads (by decide : 2 * 2042 + 1 ≤ maxPath)
  refine ⟨⟨hleads, fun r hreaches i hok => ?_⟩, throughItem_leadsTo, leadsTo_name isName_p rfl rfl,
    ?_⟩
  · have hgoverns := (governs_race (oneItem_awaits hleads) rfl rfl fun _ => rfl).reaches hreaches
    obtain ⟨-, hname, htomb, -⟩ := hasRoom_of_outcome hgoverns hok
    have hjoin := Path.le_length_join (dotted 2042).root
      (isName_tombName_of_length (by decide) hname)
    have hlength : (tombName "a".ascii (mark 1 0)).length = 15 := by decide
    have hroot : (dotted 2042).root.length = 2 * 2042 + 1 := Path.length_dotted 2042 "q".ascii
    rw [hroot, hlength] at hjoin
    rw [tombstone_eq] at htomb
    have hmax : maxPath = 4095 := rfl
    omega
  · obtain ⟨r, hplay, hfiles⟩ := Option.map_eq_some_iff.mp play_throughItem
    refine ⟨r, Race.reaches_of_play hplay, ?_⟩
    rw [hfiles]
    exact ⟨rfl, rfl⟩

end Quarantine

end Triage
