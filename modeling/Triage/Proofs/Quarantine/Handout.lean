import Mathlib
import Triage.Proofs.Quarantine.Catalogue
import Triage.Proofs.Quarantine.FirstFree
import Triage.Proofs.Quarantine.Race

/-!
Ids that are handed out by callers at once.

A new item gets its id by the making of its directory, which succeeds for one caller only as long as
the directory stands. An approval may move it away at any time; then the id is below the approved
root for ever. So a caller that has made the directory looks at the approved root once more, and
gives up the id if it is there. If two callers have made the directory of one id, the second one did
so after the first one's was moved away, or given up because the id was approved: in either case the
id is approved (`Bid.Compatible`), and no caller settles on it any more.
-/

namespace Triage

open FileSystem (maxPath absoluteText)

namespace Quarantine

/-! ## Bids -/

/-- How far a caller has come with an id. -/
inductive Bid where
  | looks
  /-- It has made the directory and not looked at the approved root after that. -/
  | holds (id : Text)
  /-- It has found that the id is approved. -/
  | leaves (id : Text)
  | settled (id : Text)
  deriving DecidableEq

/-- The id whose directory the caller has made for itself. -/
def Bid.claimed? : Bid → Option Text
  | looks | leaves _ => none
  | holds id | settled id => some id

/-- How a step of a caller changes its bid and the files. A caller that is settled takes no step. -/
inductive Bid.Goes (p : Places) : Bid → FileSystem → Bid → FileSystem → Prop where
  | stays {bid : Bid} {fs : FileSystem} (h : ∀ id, bid ≠ .settled id) : Goes p bid fs bid fs
  | approves {fs fs' : FileSystem} (hshifted : p.Shifted fs fs') (hkeeps : p.Keeps fs fs') :
    Goes p .looks fs .looks fs'
  | claims {fs : FileSystem} {id : Text} (hid : ItemId.isValid id)
    (hfree : fs.nodeAt? (p.root ++ [id]) = none) :
    Goes p .looks fs (.holds id) (fs.setAt (p.root ++ [id]) (some Node.empty))
  | settles {fs : FileSystem} {id : Text} (hfree : ¬fs.Occupied (p.approved ++ [id])) :
    Goes p (.holds id) fs (.settled id) fs
  | yields {fs : FileSystem} {id : Text} (happroved : fs.Occupied (p.approved ++ [id])) :
    Goes p (.holds id) fs (.leaves id) fs
  | leaves {fs fs' : FileSystem} {id : Text} (hshifted : p.Shifted fs fs')
    (hkeeps : p.Keeps fs fs') : Goes p (.leaves id) fs .looks fs'

theorem Bid.Goes.looks {p : Places} (fs : FileSystem) : Bid.Goes p .looks fs .looks fs :=
  .stays nofun

variable {n : Nat} {p : Places} {q : Quarantine} {fs fs' : FileSystem} {bids : Fin n → Bid}
variable {i : Fin n} {bid bid' : Bid} {id base : Text}

/-- What a bid says of the files. -/
def Bid.Stands (p : Places) (fs : FileSystem) : Bid → Prop
  | looks => True
  | holds id | settled id => fs.Occupied (p.root ++ [id]) ∨ fs.Occupied (p.approved ++ [id])
  | leaves id => fs.Occupied (p.approved ++ [id])

/-- Two callers have made the directory of one id only if it is approved, and at most one of them is
settled on it. -/
def Bid.Compatible (p : Places) (fs : FileSystem) (bid bid' : Bid) : Prop :=
  ∀ id, bid.claimed? = some id → bid'.claimed? = some id →
    fs.Occupied (p.approved ++ [id]) ∧ ¬(bid = settled id ∧ bid' = settled id)

/-- What the bids of all callers say of the files. -/
structure Bid.Agreed (p : Places) (q : Quarantine) (fs : FileSystem) (bids : Fin n → Bid) :
    Prop where
  steady : p.Steady q fs
  stands : ∀ i, (bids i).Stands p fs
  compatible : ∀ i j, i ≠ j → (bids i).Compatible p fs (bids j)

namespace Bid

theorem Stands.keeps (h : bid.Stands p fs) (hkeeps : p.Keeps fs fs') : bid.Stands p fs' := by
  cases bid with
  | looks => trivial
  | holds id | settled id =>
    exact h.elim (hkeeps.root id) fun happroved => Or.inr (hkeeps.approved id happroved)
  | leaves id => exact hkeeps.approved id h

theorem Stands.of_claimed (h : bid.Stands p fs) (hclaimed : bid.claimed? = some id) :
    fs.Occupied (p.root ++ [id]) ∨ fs.Occupied (p.approved ++ [id]) := by
  cases bid with
  | looks | leaves => contradiction
  | holds | settled =>
    obtain rfl := Option.some.inj hclaimed
    exact h

theorem Compatible.keeps (h : bid.Compatible p fs bid') (hkeeps : p.Keeps fs fs') :
    bid.Compatible p fs' bid' :=
  fun id hid hid' => ⟨hkeeps.approved id (h id hid hid').1, (h id hid hid').2⟩

theorem Compatible.symm (h : bid.Compatible p fs bid') : bid'.Compatible p fs bid :=
  fun id hid hid' => ⟨(h id hid' hid).1, fun hboth => (h id hid' hid).2 hboth.symm⟩

theorem compatible_of_unclaimed (h : bid.claimed? = none) : bid.Compatible p fs bid' :=
  fun _ hid => nomatch h.symm.trans hid

namespace Agreed

/-- Entries that stay keep the bids of the other callers true. -/
theorem replace (h : Agreed p q fs bids) (hsteady : p.Steady q fs') (hkeeps : p.Keeps fs fs')
    (hstands : bid.Stands p fs') (hcompatible : ∀ j, j ≠ i → bid.Compatible p fs' (bids j)) :
    Agreed p q fs' (Function.update bids i bid) where
  steady := hsteady
  stands j := by
    by_cases hj : j = i
    · subst hj
      rw [Function.update_self]
      exact hstands
    · rw [Function.update_of_ne hj]
      exact (h.stands j).keeps hkeeps
  compatible j k hjk := by
    by_cases hj : j = i
    · subst hj
      rw [Function.update_self, Function.update_of_ne hjk.symm]
      exact hcompatible k hjk.symm
    · rw [Function.update_of_ne hj]
      by_cases hk : k = i
      · subst hk
        rw [Function.update_self]
        exact (hcompatible j hj).symm
      · rw [Function.update_of_ne hk]
        exact (h.compatible j k hjk).keeps hkeeps

theorem update (h : Agreed p q fs bids) (hgoes : (bids i).Goes p fs bid fs') :
    Agreed p q fs' (Function.update bids i bid) := by
  have hstands := h.stands i
  generalize hi : bids i = before at hgoes hstands
  cases hgoes with
  | stays =>
    rw [← hi, Function.update_eq_self]
    exact h
  | approves hshifted hkeeps | leaves hshifted hkeeps =>
    exact h.replace (h.steady.shift hshifted) hkeeps trivial
      fun _ _ => compatible_of_unclaimed rfl
  | @claims _ id hid hfree =>
    have hkeeps := h.steady.keeps_claimed hfree
    have hmade := (h.steady.isFree_root hfree).nodeAt?_setAt Node.empty
    refine h.replace (h.steady.shift (.claimed .nothing hid hfree)) hkeeps (Or.inl ⟨_, hmade⟩) ?_
    -- If another caller has made the directory too, that was moved away or given up.
    rintro j - _ ⟨⟩ hj
    have hroot : ¬fs.Occupied (p.root ++ [id]) := FileSystem.not_occupied_iff.mpr hfree
    exact ⟨hkeeps.approved id (((h.stands j).of_claimed hj).resolve_left hroot), nofun⟩
  | @settles _ id hfree =>
    refine h.replace h.steady (.refl p _) hstands ?_
    rintro j hji _ ⟨⟩ hj
    have hclaimed : (bids i).claimed? = some id := by
      rw [hi]
      rfl
    exact absurd (h.compatible j i hji id hj hclaimed).1 hfree
  | yields happroved =>
    exact h.replace h.steady (.refl p _) happroved fun _ _ => compatible_of_unclaimed rfl

end Agreed

end Bid

/-- The protocol by which callers get their ids. -/
def bidding (n : Nat) (p : Places) (q : Quarantine) : Protocol n FileSystem Bid where
  files fs := fs
  Agrees := Bid.Agreed p q
  Moves _ := Bid.Goes p
  agrees_update := Bid.Agreed.update

theorem Bid.steady_of_finds (h : (bidding n p q).Finds i bid fs) : p.Steady q fs := by
  obtain ⟨bids, hagreed, -⟩ := h
  exact hagreed.steady

/-! ## Callers -/

/-- A call that claims an id for a new item, or one that approves an item. -/
inductive Errand where
  | claim (base : Text)
  | approve (id : Text)

/-- A claim ends with the id and the path of the directory. -/
def Errand.attempt (q : Quarantine) : Errand → Attempt (Option (Text × Text))
  | claim base => do return some (← q.claim base maxCandidates 1)
  | approve id => do
    q.approve id
    return none

/-- A caller that ends with an id has settled on it. -/
def Errand.Ends (p : Places) (bid : Bid) (_ : Handle) :
    Except QuarantineError (Option (Text × Text)) → Prop
  | .ok (some (id, path)) => bid = .settled id ∧ path = absoluteText (p.root ++ [id])
  | _ => True

section

variable {handle : Handle}

/-- A caller that has made the directory of an id settles on it, or leaves it and goes on. -/
theorem Bid.upholds_recheck (hid : ItemId.isValid id)
    (hroom : (Path.join q.approvedRoot id).length ≤ maxPath)
    {ends : Bid → Handle → Except QuarantineError (Text × Text) → Prop}
    (hsettled : ends (.settled id) handle (.ok (id, absoluteText (p.root ++ [id]))))
    {next : Attempt (Text × Text)}
    (hnext : (bidding n p q).Upholds i ends next.run .looks handle) :
    (bidding n p q).Upholds i ends (show Attempt (Text × Text) from do
      if ← Attempt.ask (.exists (Path.join q.approvedRoot id)) then
        let _ ← Attempt.ask (.removeDirectory (absoluteText (p.root ++ [id])))
        next
      else pure (id, absoluteText (p.root ++ [id]))).run (.holds id) handle := by
  have hname := ItemId.isName_of_isValid hid
  refine Protocol.upholds_exists fun fs hfs => ?_
  have hprobe : ((bidding n p q).files fs).entryExists (Path.join q.approvedRoot id) = true ↔
      fs.Occupied (p.approved ++ [id]) :=
    (Bid.steady_of_finds hfs).entryExists_approved hname hroom
  by_cases happroved : fs.Occupied (p.approved ++ [id])
  · refine ⟨.leaves id, .yields happroved, ?_⟩
    rw [if_pos (hprobe.mpr happroved)]
    refine Protocol.upholds_ask trivial fun fs hfs => ?_
    obtain ⟨bids, hagreed, hbid⟩ := hfs
    -- It is still approved when the directory is given up: approved items stay.
    have happroved : fs.Occupied (p.approved ++ [id]) := by
      have hstands := hagreed.stands i
      rwa [hbid] at hstands
    obtain ⟨hempty, hperform⟩ | ⟨e, hperform⟩ := hagreed.steady.perform_removeDirectory hname
    · refine ⟨_, _, hperform, ?_⟩
      rintro after rfl
      exact ⟨.looks, .leaves (.givenUp .nothing hid hempty)
        (hagreed.steady.keeps_givenUp hempty happroved), hnext⟩
    · refine ⟨_, _, hperform, ?_⟩
      rintro after rfl
      exact ⟨.looks, .leaves .nothing (.refl p fs), hnext⟩
  · refine ⟨.settled id, .settles happroved, ?_⟩
    rw [if_neg (mt hprobe.mp happroved)]
    exact hsettled

theorem Bid.upholds_claim (left k : Nat)
    (hroom : ∀ m, k ≤ m → m < k + left →
      (Path.join q.approvedRoot (candidate base m)).length ≤ maxPath)
    {ends : Bid → Handle → Except QuarantineError (Text × Text) → Prop}
    (hsettled : ∀ id, ends (.settled id) handle (.ok (id, absoluteText (p.root ++ [id]))))
    (hfailed : ∀ e, ends .looks handle (.error e)) :
    (bidding n p q).Upholds i ends (q.claim base left k).run .looks handle := by
  induction left generalizing k with
  | zero => exact hfailed _
  | succ left ih =>
    have hnext := ih (k + 1) fun m hm hlt => hroom m (by omega) (by omega)
    rw [claim]
    refine Protocol.upholds_exists fun fs _ => ⟨.looks, .looks fs, ?_⟩
    split
    · exact hnext
    refine Protocol.upholds_resolve fun fs hfs => ⟨.looks, .looks _, ?_⟩
    cases hresolve : QuarantineStep.resolvePath ((bidding n p q).files fs) q.root
      (candidate base k) with
    | error e => exact hfailed e
    | ok path =>
      obtain ⟨hid, rfl⟩ := (Bid.steady_of_finds hfs).path_of_resolve_root hresolve
      refine Protocol.upholds_ask trivial fun fs hfs => ?_
      obtain ⟨hfree, hperform⟩ | ⟨e, hperform⟩ :=
        (Bid.steady_of_finds hfs).perform_makeDirectory (ItemId.isName_of_isValid hid)
      · refine ⟨_, _, hperform, ?_⟩
        rintro after rfl
        exact ⟨.holds (candidate base k), .claims hid hfree, Bid.upholds_recheck hid
          (hroom k (Nat.le_refl k) (by omega)) (hsettled _) hnext⟩
      · refine ⟨_, _, hperform, ?_⟩
        rintro after rfl
        refine ⟨.looks, .looks _, ?_⟩
        cases e with
        | fileExists => exact hnext
        | _ => exact hfailed _

/-- A step by which no bid changes. -/
theorem Bid.upholds_look {α : Type} {s : QuarantineStep} {next : s.Answer → Attempt α}
    {ends : Bid → Handle → Except QuarantineError α → Prop} (hready : s.Ready handle)
    (h : ∀ fs, p.Steady q fs → ∃ answer, s.perform fs = (fs, answer) ∧
      ∀ after, s.Leaves answer handle after →
        (bidding n p q).Upholds i ends (next answer).run .looks after) :
    (bidding n p q).Upholds i ends (Attempt.ask s >>= next).run .looks handle := by
  refine Protocol.upholds_ask hready fun fs hfs => ?_
  obtain ⟨answer, hperform, hnext⟩ := h fs (Bid.steady_of_finds hfs)
  exact ⟨fs, answer, hperform, fun after hafter => ⟨.looks, .looks _, hnext after hafter⟩⟩

theorem Bid.upholds_makeRoots {α : Type} {next : Unit → Attempt α}
    {ends : Bid → Handle → Except QuarantineError α → Prop}
    (hnext : (bidding n p q).Upholds i ends (next ()).run .looks handle) :
    (bidding n p q).Upholds i ends (q.makeRoots >>= next).run .looks handle := by
  refine Protocol.upholds_bind.mpr (Protocol.upholds_bind.mpr (Protocol.upholds_must.mpr ?_))
  refine ⟨trivial, fun fs hfs => ⟨fs, .ok (), (Bid.steady_of_finds hfs).makeRoot_root, ?_⟩⟩
  rintro after rfl
  refine ⟨.looks, .looks _, Protocol.upholds_must.mpr ?_⟩
  refine ⟨trivial, fun fs hfs => ⟨fs, .ok (), (Bid.steady_of_finds hfs).makeRoot_approved, ?_⟩⟩
  rintro after rfl
  exact ⟨.looks, .looks _, hnext⟩

/-- The rename of an approval keeps what other callers rely on. -/
theorem Bid.upholds_moveItem (hid : ItemId.isValid id) {meaning : FileError → QuarantineError}
    {ends : Bid → Handle → Except QuarantineError Unit → Prop}
    (hends : ∀ handle outcome, ends .looks handle outcome) :
    (bidding n p q).Upholds i ends (moveItem (absoluteText (p.root ++ [id]))
      (absoluteText (p.approved ++ [id])) meaning).run .looks handle := by
  refine Protocol.upholds_bind.mpr (Protocol.upholds_bind.mpr (Protocol.upholds_must.mpr ?_))
  refine ⟨trivial, fun fs hfs => ⟨fs, _, rfl, fun after hafter => ⟨.looks, .looks _, ?_⟩⟩⟩
  cases hopen : QuarantineStep.openPath ((bidding n p q).files fs)
    (absoluteText (p.root ++ [id])) with
  | error e => exact hends _ _
  | ok =>
    rw [hopen] at hafter
    obtain ⟨d, rfl⟩ := hafter
    refine ⟨⟨d, rfl⟩, fun fs hfs => ⟨fs, (), rfl, fun after hafter => ?_⟩⟩
    refine ⟨.looks, .looks _, Protocol.upholds_ask trivial fun fs hfs => ?_⟩
    have hsteady := Bid.steady_of_finds hfs
    -- Giving the lock back changes nothing, however the renaming went.
    have hunlock : ∀ outcome : Except FileError Unit, ∀ handle,
        (bidding n p q).Upholds i ends (Attempt.ask (.unlock (absoluteText (p.root ++ [id]))) >>=
          fun _ => Attempt.must (pure outcome) meaning).run .looks handle := by
      intro outcome handle
      refine Bid.upholds_look trivial fun fs _ => ⟨(), rfl, fun after _ => ?_⟩
      refine Protocol.upholds_must.mpr ?_
      cases outcome with
      | ok => exact hends _ _
      | error e => exact hends _ _
    obtain ⟨m, hitem, hfree, hinside, hperform⟩ | ⟨e, hperform⟩ :=
      hsteady.perform_rename (ItemId.isName_of_isValid hid)
    · refine ⟨_, _, hperform, fun after _ => ?_⟩
      exact ⟨.looks, .approves (.approved .nothing hid hitem hfree hinside)
        (hsteady.keeps_approved hfree hinside m), hunlock _ _⟩
    · exact ⟨_, _, hperform, fun after _ => ⟨.looks, .looks _, hunlock _ _⟩⟩

theorem Bid.upholds_approve (id : Text)
    {ends : Bid → Handle → Except QuarantineError Unit → Prop}
    (hends : ∀ handle outcome, ends .looks handle outcome) :
    (bidding n p q).Upholds i ends (q.approve id).run .looks handle := by
  refine Protocol.upholds_resolve fun fs hfs => ⟨.looks, .looks _, ?_⟩
  cases hsource : QuarantineStep.resolvePath ((bidding n p q).files fs) q.root id with
  | error e => exact hends _ _
  | ok source =>
    obtain ⟨hid, rfl⟩ := (Bid.steady_of_finds hfs).path_of_resolve_root hsource
    refine Protocol.upholds_resolve fun fs hfs => ⟨.looks, .looks _, ?_⟩
    cases htarget : QuarantineStep.resolvePath ((bidding n p q).files fs) q.approvedRoot id with
    | error e => exact hends _ _
    | ok target =>
      obtain rfl := (Bid.steady_of_finds hfs).path_of_resolve_approved htarget
      refine Protocol.upholds_exists fun fs _ => ⟨.looks, .looks _, ?_⟩
      split
      · refine Protocol.upholds_exists fun fs _ => ⟨.looks, .looks _, ?_⟩
        split
        · exact hends _ _
        · exact hends _ _
      · exact Bid.upholds_makeRoots (Bid.upholds_moveItem hid hends)

end

/-! ## The race -/

/-- Claims have room for their candidates below the approved root. -/
def Errand.HasRoom (q : Quarantine) : Errand → Prop
  | claim base => q.HasRoom base
  | approve _ => True

variable {errands : Fin n → Errand}

/-- Files with the roots `q` and `p`. -/
def Stock.files (s : Stock) : FileSystem :=
  ⟨.directory [("q".ascii, .directory s.quarantined), ("p".ascii, .directory s.approved)], []⟩

end Quarantine

end Triage
