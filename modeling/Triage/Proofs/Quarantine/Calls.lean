import Triage.Proofs.Quarantine.Steps

/-!
Approvals and rejections, one at a time.

A call that succeeds takes the files from one stock to another (`approve_quarantined`,
`reject_quarantined`). For every way in which a call fails, there is a run that says with which
error, and that the files are as they were.
-/

namespace Triage

open FileSystem (absoluteText)

namespace Quarantine

/-! ## Running an attempt -/

/-- The attempt, with no other steps between its own, ends with these files and this outcome. -/
def Runs {α : Type} (attempt : Attempt α) (fs fs' : FileSystem)
    (outcome : Except QuarantineError α) : Prop :=
  Procedure.run fs attempt.run = (fs', outcome)

variable {α β : Type} {fs fs' fs'' : FileSystem} {e : QuarantineError}

theorem run_andThen (p : Procedure α) (next : α → Procedure β) (fs : FileSystem) :
    Procedure.run fs (p.andThen next) =
      Procedure.run (Procedure.run fs p).1 (next (Procedure.run fs p).2) := by
  induction p generalizing fs with
  | done value => rfl
  | step s rest ih => exact ih _ _

theorem Runs.bind {first : Attempt α} {next : α → Attempt β} {a : α}
    {outcome : Except QuarantineError β} (h : Runs first fs fs' (.ok a))
    (h' : Runs (next a) fs' fs'' outcome) : Runs (first >>= next) fs fs'' outcome := by
  unfold Runs at h h' ⊢
  rw [ExceptT.run_bind]
  apply (run_andThen _ _ _).trans
  rw [h]
  exact h'

theorem Runs.bind_error {first : Attempt α} {next : α → Attempt β}
    (h : Runs first fs fs' (.error e)) : Runs (first >>= next) fs fs' (.error e) := by
  unfold Runs at h ⊢
  rw [ExceptT.run_bind]
  apply (run_andThen _ _ _).trans
  rw [h]
  rfl

theorem runs_pure (a : α) (fs : FileSystem) : Runs (pure a) fs fs (.ok a) := rfl

theorem runs_throw (e : QuarantineError) (fs : FileSystem) :
    Runs (throw e : Attempt α) fs fs (.error e) := rfl

theorem runs_ask {s : QuarantineStep} {answer : s.Answer} (h : s.perform fs = (fs', answer)) :
    Runs (Attempt.ask s) fs fs' (.ok answer) := by
  have hrun : Procedure.run fs (Attempt.ask s).run =
      ((s.perform fs).1, .ok (s.perform fs).2) := rfl
  rw [Runs, hrun, h]

theorem runs_must {first : Attempt (Except FileError Unit)} {meaning : FileError → QuarantineError}
    (h : Runs first fs fs' (.ok (.ok ()))) : Runs (Attempt.must first meaning) fs fs' (.ok ()) :=
  h.bind (runs_pure () fs')

theorem runs_must_error {first : Attempt (Except FileError Unit)}
    {meaning : FileError → QuarantineError} {cause : FileError}
    (h : Runs first fs fs' (.ok (.error cause))) :
    Runs (Attempt.must first meaning) fs fs' (.error (meaning cause)) :=
  h.bind (runs_throw (meaning cause) fs')

theorem runs_resolve {root id path : Text} (h : QuarantineStep.resolvePath fs root id = .ok path) :
    Runs (Attempt.resolve root id) fs fs (.ok path) := by
  have hstep : (QuarantineStep.resolve root id).perform fs = (fs, .ok path) := by
    rw [← h]
    rfl
  exact (runs_ask hstep).bind (runs_pure path fs)

theorem runs_resolve_error {root id : Text} (h : QuarantineStep.resolvePath fs root id = .error e) :
    Runs (Attempt.resolve root id) fs fs (.error e) := by
  have hstep : (QuarantineStep.resolve root id).perform fs = (fs, .error e) := by
    rw [← h]
    rfl
  exact (runs_ask hstep).bind (runs_throw e fs)

theorem runs_exists {path : Text} {b : Bool} (h : fs.entryExists path = b) :
    Runs (Attempt.ask (.exists path)) fs fs (.ok b) := by
  refine runs_ask ?_
  rw [← h]
  rfl

theorem runs_lockItem {path : Text} (hopen : QuarantineStep.openPath fs path = .ok ()) :
    Runs (lockItem path) fs fs (.ok ()) := by
  have hopened : (QuarantineStep.openItem path).perform fs = (fs, .ok ()) := by
    rw [← hopen]
    rfl
  exact (runs_must (runs_ask hopened)).bind (runs_ask rfl)

/-- A move succeeds if the item can be opened and renamed. -/
theorem runs_moveItem {source target : Text} {meaning : FileError → QuarantineError}
    (hopen : QuarantineStep.openPath fs source = .ok ())
    (hrename : fs.renameNew source target = .ok fs') :
    Runs (moveItem source target meaning) fs fs' (.ok ()) := by
  have hrenamed := QuarantineStep.perform_rename hrename
  exact (runs_lockItem hopen).bind
    ((runs_ask hrenamed).bind ((runs_ask rfl).bind (runs_must (runs_pure _ fs'))))

/-- A move whose rename fails leaves all as it was. -/
theorem runs_moveItem_error {source target : Text} {meaning : FileError → QuarantineError}
    {cause : FileError} (hopen : QuarantineStep.openPath fs source = .ok ())
    (hrename : fs.renameNew source target = .error cause) :
    Runs (moveItem source target meaning) fs fs (.error (meaning cause)) := by
  have hrenamed := QuarantineStep.perform_rename_error hrename
  exact (runs_lockItem hopen).bind
    ((runs_ask hrenamed).bind ((runs_ask rfl).bind (runs_must_error (runs_pure _ fs))))

/-! ## One call -/

variable {p : Places} {q : Quarantine} {s : Stock} {id : Text} {n : Node}

theorem runs_makeRoots (h : p.Hold q fs) (s : Stock) :
    Runs q.makeRoots (p.stock fs s) (p.stock fs s) (.ok ()) :=
  (runs_must (runs_ask (h.leads.makeRoot_root s))).bind
    (runs_must (runs_ask (h.leads.makeRoot_approved s)))

theorem approve_invalid (hid : ItemId.isValid id = false) :
    Runs (q.approve id) fs fs (.error (.invalidId id)) :=
  (runs_resolve_error (QuarantineStep.resolvePath_invalid hid)).bind_error

theorem reject_invalid (hid : ItemId.isValid id = false) (mark : Text) :
    Runs (q.reject mark id) fs fs (.error (.invalidId id)) :=
  (runs_resolve_error (QuarantineStep.resolvePath_invalid hid)).bind_error.bind_error

section

variable (h : p.Hold q fs) (hs : s.Sound) (hid : ItemId.isValid id)
  (hlength : id.length ≤ ItemId.maxItemId)

include h hs hid hlength

/-- An approval moves the tree of a quarantined item to the approved ones. -/
theorem approve_quarantined (hitem : s.quarantined.lookup id = some n) :
    Runs (q.approve id) (p.stock fs s)
      (p.stock fs ⟨Node.setEntry id none s.quarantined, Node.setEntry id (some n) s.approved⟩)
      (.ok ()) := by
  -- No id stands below both roots, so the target of the rename is free.
  have hfree : s.approved.lookup id = none := by
    rw [Node.lookup_eq_none_iff]
    exact hs.apart id (List.mem_map_of_mem (Node.mem_of_lookup hitem))
  have hexists := FileSystem.entryExists_of_locate (locate_quarantined h hs hid hlength)
  rw [hitem] at hexists
  refine (runs_resolve (resolvePath_root h hs hid hlength)).bind ?_
  refine (runs_resolve (resolvePath_approved h hs hid hlength)).bind ?_
  refine (runs_exists hexists).bind ?_
  exact (runs_makeRoots h s).bind
    (runs_moveItem (openPath_item h hs hid hlength hitem)
      (renameNew_approved h hid hlength hitem hfree))

theorem approve_missing (hitem : s.quarantined.lookup id = none) :
    Runs (q.approve id) (p.stock fs s) (p.stock fs s)
      (.error
        (if (s.approved.lookup id).isSome then .alreadyApproved id else .notQuarantined id)) := by
  have hexists := FileSystem.entryExists_of_locate (locate_quarantined h hs hid hlength)
  have hexists' := FileSystem.entryExists_of_locate (locate_approved h hs hid hlength)
  rw [hitem] at hexists
  refine (runs_resolve (resolvePath_root h hs hid hlength)).bind ?_
  refine (runs_resolve (resolvePath_approved h hs hid hlength)).bind ?_
  refine (runs_exists hexists).bind ?_
  refine (runs_exists hexists').bind ?_
  cases s.approved.lookup id with
  | some n => exact (runs_throw _ _).bind_error
  | none => exact (runs_throw _ _).bind_error

/-- A rejection deletes the tree of a quarantined item. -/
theorem reject_quarantined (hitem : s.quarantined.lookup id = some n) (process count : UInt32) :
    Runs (q.reject (mark process count) id) (p.stock fs s)
      (p.stock fs { s with quarantined := Node.setEntry id none s.quarantined }) (.ok ()) := by
  have hexists := FileSystem.entryExists_of_locate (locate_quarantined h hs hid hlength)
  rw [hitem] at hexists
  have hfound : Runs (q.toReject id) (p.stock fs s) (p.stock fs s)
      (.ok (absoluteText (p.root ++ [id]))) := by
    refine (runs_resolve (resolvePath_root h hs hid hlength)).bind ?_
    exact (runs_exists hexists).bind (runs_pure _ _)
  refine hfound.bind ?_
  -- The tombstone is an entry of the root between the rename and the deletion only.
  refine (runs_moveItem (openPath_item h hs hid hlength hitem)
    (renameNew_tombstone h hs hid hlength hitem process count)).bind ?_
  exact runs_must (runs_ask
    (QuarantineStep.perform_removeTree (removeTree_tombstone h hs hid hlength n process count)))

theorem reject_missing (hitem : s.quarantined.lookup id = none) (mark : Text) :
    Runs (q.reject mark id) (p.stock fs s) (p.stock fs s)
      (.error (if (s.approved.lookup id).isSome then .isApproved id else .notQuarantined id)) := by
  have hexists := FileSystem.entryExists_of_locate (locate_quarantined h hs hid hlength)
  have hexists' := FileSystem.entryExists_of_locate (locate_approved h hs hid hlength)
  rw [hitem] at hexists
  refine Runs.bind_error ?_
  refine (runs_resolve (resolvePath_root h hs hid hlength)).bind ?_
  refine (runs_exists hexists).bind ?_
  refine (runs_resolve (resolvePath_approved h hs hid hlength)).bind ?_
  refine (runs_exists hexists').bind ?_
  cases s.approved.lookup id with
  | some n => exact (runs_throw _ _).bind_error
  | none => exact (runs_throw _ _).bind_error

end

end Quarantine

end Triage
