import Triage.Proofs.Quarantine.Creation

/-!
Callers that go on alone.

A procedure is tidy if it closes whatever it opens, however its steps are answered; all calls of the
quarantine are. In a race of tidy callers in which nobody has anything open, each caller can go on
alone as far as it likes (`Race.Resting.run`), and the race can be brought to its end
(`Race.Resting.complete`). So a run in which callers stop between two steps of theirs is made by
running them one after the other, each up to its stop.
-/

namespace Triage

/-! ## Callers that let go -/

namespace Procedure

variable {α β : Type}

/-- However its steps are answered, the procedure takes a lock only on what it has open, and comes to
such an end. -/
def Keeps (ends : α → Handle → Prop) : Procedure α → Handle → Prop
  | .done value, handle => ends value handle
  | .step s next, handle => s.Ready handle ∧
      ∀ answer after, s.Leaves answer handle after → Keeps ends (next answer) after

/-- The procedure has nothing open at its end. -/
def Tidy (procedure : Procedure α) (handle : Handle) : Prop :=
  procedure.Keeps (fun _ handle => handle = .closed) handle

theorem keeps_andThen {ends : β → Handle → Prop} {first : Procedure α} {next : α → Procedure β}
    {handle : Handle} :
    (first.andThen next).Keeps ends handle ↔
      first.Keeps (fun a handle => (next a).Keeps ends handle) handle := by
  induction first generalizing handle with
  | done a => exact Iff.rfl
  | step s rest ih => simp only [andThen, Keeps, ih]

theorem Keeps.mono {ends ends' : α → Handle → Prop} {procedure : Procedure α} {handle : Handle}
    (h : procedure.Keeps ends handle) (hends : ∀ a handle, ends a handle → ends' a handle) :
    procedure.Keeps ends' handle := by
  induction procedure generalizing handle with
  | done a => exact hends a handle h
  | step s next ih => exact ⟨h.1, fun answer after hafter => ih answer (h.2 answer after hafter)⟩

theorem Tidy.andThen {first : Procedure α} {next : α → Procedure β} {handle : Handle}
    (h : first.Tidy handle) (hnext : ∀ a, (next a).Tidy .closed) :
    (first.andThen next).Tidy handle := by
  refine keeps_andThen.mpr (h.mono fun a after hclosed => ?_)
  subst hclosed
  exact hnext a

end Procedure

namespace Race

variable {n : Nat} {α β : Type} {r r' : Race n α} {i : Fin n}

/-- What a caller has given as its value, it has given for good. -/
theorem Reaches.outcome?_eq {value : α} (h : r.Reaches r') (hi : r.outcome? i = some value) :
    r'.outcome? i = some value := by
  induction h with
  | refl => exact hi
  | tail _ hstep ih =>
    cases hstep with
    | @take j s next after hrest hfree hleaves =>
      have hne : i ≠ j := by
        rintro rfl
        rw [outcome?_eq_some.mp ih] at hrest
        contradiction
      rw [outcome?_eq_some] at ih ⊢
      simp only [Function.update_of_ne hne]
      exact ih

/-- If no other caller has anything open, a caller can go on alone. -/
theorem exists_alone {first : Procedure β} {next : β → Procedure α}
    (hrest : (r.callers i).rest = first.andThen next) (htidy : first.Tidy (r.callers i).handle)
    (hothers : ∀ j, j ≠ i → (r.callers j).handle = .closed) :
    ∃ r', r.Reaches r' ∧ r'.files = (first.run r.files).1 ∧
      r'.callers = Function.update r.callers i ⟨next (first.run r.files).2, .closed⟩ := by
  induction first generalizing r with
  | done value =>
    have hcaller : r.callers i = ⟨next value, .closed⟩ := by
      rw [← show (r.callers i).handle = .closed from htidy,
        ← show (r.callers i).rest = next value from hrest]
    refine ⟨r, .refl, rfl, ?_⟩
    rw [Procedure.run, ← hcaller, Function.update_eq_self]
  | step s rest ih =>
    obtain ⟨hready, hrun⟩ := htidy
    -- Nobody else has a lock, and a tidy procedure does not wait for its own.
    have hfree : ¬r.Waits i s := by
      intro hwaits
      cases s with
      | lock path =>
        obtain ⟨j, hj⟩ := hwaits
        by_cases hji : j = i
        · subst hji
          obtain ⟨d, hd⟩ := hready
          rw [hd] at hj
          contradiction
        · rw [hothers j hji] at hj
          contradiction
      | _ => exact hwaits
    have hleaves := QuarantineStep.leaves_after 0 hready (s.perform r.files).2
    have hstep : r.Step ⟨(s.perform r.files).1, Function.update r.callers i
        ⟨(rest (s.perform r.files).2).andThen next,
          s.after 0 (s.perform r.files).2 (r.callers i).handle⟩⟩ := .take hrest hfree hleaves
    obtain ⟨r', hreaches, hfiles, hcallers⟩ := ih (s.perform r.files).2
      (r := ⟨(s.perform r.files).1, Function.update r.callers i
        ⟨(rest (s.perform r.files).2).andThen next,
          s.after 0 (s.perform r.files).2 (r.callers i).handle⟩⟩)
      (by simp only [Function.update_self])
      (by simp only [Function.update_self]; exact hrun _ _ hleaves)
      (fun j hj => by simp only [Function.update_of_ne hj]; exact hothers j hj)
    refine ⟨r', .head hstep hreaches, hfiles, ?_⟩
    rw [hcallers, Function.update_idem]
    rfl

/-- No caller has anything open, and none will at its end. -/
structure Resting (r : Race n α) : Prop where
  closed : ∀ i, (r.callers i).handle = .closed
  tidy : ∀ i, (r.callers i).rest.Tidy .closed

theorem resting_start {fs : FileSystem} {procedures : Fin n → Procedure α}
    (h : ∀ i, (procedures i).Tidy .closed) : (start fs procedures).Resting :=
  ⟨fun _ => rfl, h⟩

/-- Each caller can go on alone. -/
theorem Resting.run (h : r.Resting) {first : Procedure β} {next : β → Procedure α}
    (hrest : (r.callers i).rest = first.andThen next) (htidy : first.Tidy .closed)
    (hnext : ∀ b, (next b).Tidy .closed) :
    ∃ r', r.Reaches r' ∧ r'.Resting ∧ r'.files = (first.run r.files).1 ∧
      (r'.callers i).rest = next (first.run r.files).2 ∧
      ∀ j, j ≠ i → (r'.callers j).rest = (r.callers j).rest := by
  obtain ⟨r', hreaches, hfiles, hcallers⟩ := exists_alone hrest (by rwa [h.closed i])
    fun j _ => h.closed j
  refine ⟨r', hreaches, ⟨fun j => ?_, fun j => ?_⟩, hfiles, ?_, fun j hj => ?_⟩
  · rw [hcallers]
    by_cases hj : j = i
    · rw [hj, Function.update_self]
    · rw [Function.update_of_ne hj]
      exact h.closed j
  · rw [hcallers]
    by_cases hj : j = i
    · rw [hj, Function.update_self]
      exact hnext _
    · rw [Function.update_of_ne hj]
      exact h.tidy j
  · rw [hcallers, Function.update_self]
  · rw [hcallers, Function.update_of_ne hj]

/-- Each caller can come to its end alone. -/
theorem Resting.finish (h : r.Resting) (i : Fin n) :
    ∃ r', r.Reaches r' ∧ r'.Resting ∧ r'.files = ((r.callers i).rest.run r.files).1 ∧
      r'.outcome? i = some ((r.callers i).rest.run r.files).2 ∧
      ∀ j, j ≠ i → (r'.callers j).rest = (r.callers j).rest := by
  obtain ⟨r', hreaches, hresting, hfiles, hrest, hothers⟩ :=
    h.run (Procedure.andThen_done _).symm (h.tidy i) fun _ => rfl
  exact ⟨r', hreaches, hresting, hfiles, outcome?_eq_some.mpr hrest, hothers⟩

/-- The race can be brought to its end. -/
theorem Resting.complete (h : r.Resting) :
    ∃ r', r.Reaches r' ∧ ∀ i, ∃ value, r'.outcome? i = some value := by
  have hsome : ∀ callers : List (Fin n), ∃ r', r.Reaches r' ∧ r'.Resting ∧
      ∀ i ∈ callers, ∃ value, r'.outcome? i = some value := by
    intro callers
    induction callers with
    | nil => exact ⟨r, .refl, h, fun _ hi => (nomatch hi)⟩
    | cons i callers ih =>
      obtain ⟨between, hbetween, hresting, hdone⟩ := ih
      obtain ⟨r', hreaches, hresting', -, hi, -⟩ := hresting.finish i
      refine ⟨r', hbetween.trans hreaches, hresting', fun j hj => ?_⟩
      rcases List.mem_cons.mp hj with rfl | hj
      · exact ⟨_, hi⟩
      · obtain ⟨value, hvalue⟩ := hdone j hj
        exact ⟨value, Reaches.outcome?_eq hreaches hvalue⟩
  obtain ⟨r', hreaches, -, hdone⟩ := hsome (List.finRange n)
  exact ⟨r', hreaches, fun i => hdone i (List.mem_finRange i)⟩

end Race

/-! ## Calls of the quarantine -/

namespace Quarantine

open Procedure (Tidy)

variable {α β : Type} {handle : Handle} {s : QuarantineStep}

theorem tidy_bind {first : Attempt α} {next : α → Attempt β} (h : first.run.Tidy handle)
    (hnext : ∀ a, (next a).run.Tidy .closed) : (first >>= next).run.Tidy handle := by
  rw [ExceptT.run_bind]
  refine Tidy.andThen h fun outcome => ?_
  cases outcome with
  | ok a => exact hnext a
  | error e => exact rfl

theorem tidy_ask (hplain : s.Plain) : (Attempt.ask s).run.Tidy .closed :=
  ⟨hplain.ready _, fun _ _ hafter => hplain.eq_of_leaves hafter⟩

theorem tidy_must {first : Attempt (Except FileError Unit)} {meaning : FileError → QuarantineError}
    (h : first.run.Tidy .closed) : (Attempt.must first meaning).run.Tidy .closed := by
  refine tidy_bind h fun answer => ?_
  cases answer with
  | ok => exact rfl
  | error e => exact rfl

theorem tidy_resolve (root id : Text) : (Attempt.resolve root id).run.Tidy .closed := by
  refine tidy_bind (tidy_ask trivial) fun answer => ?_
  cases answer with
  | ok => exact rfl
  | error e => exact rfl

theorem tidy_makeRoots (q : Quarantine) : q.makeRoots.run.Tidy .closed :=
  tidy_bind (tidy_must (tidy_ask trivial)) fun _ => tidy_must (tidy_ask trivial)

/-- A directory that is opened is locked, and closed by the unlocking. -/
theorem tidy_moveItem (source target : Text) (meaning : FileError → QuarantineError) :
    (moveItem source target meaning).run.Tidy .closed := by
  refine ⟨trivial, fun opened after hopened => ?_⟩
  cases opened with
  | error e => exact hopened
  | ok =>
    obtain ⟨d, rfl⟩ := hopened
    refine ⟨⟨d, rfl⟩, fun _ after hlocked => ⟨trivial, fun renamed after hrenamed => ?_⟩⟩
    refine ⟨trivial, fun _ after hclosed => ?_⟩
    cases renamed with
    | ok => exact hclosed
    | error e => exact hclosed

theorem tidy_approve (q : Quarantine) (id : Text) : (q.approve id).run.Tidy .closed := by
  refine tidy_bind (tidy_resolve _ _) fun source => tidy_bind (tidy_resolve _ _) fun target => ?_
  refine tidy_bind (tidy_ask trivial) fun found => ?_
  cases found with
  | true => exact tidy_bind (tidy_makeRoots q) fun _ => tidy_moveItem source target _
  | false =>
    refine tidy_bind (tidy_ask trivial) fun approved => ?_
    cases approved with
    | true => exact rfl
    | false => exact rfl

theorem tidy_reject (q : Quarantine) (mark id : Text) : (q.reject mark id).run.Tidy .closed := by
  refine tidy_bind ?_ fun source => tidy_bind (tidy_moveItem _ _ _) fun _ =>
    tidy_must (tidy_ask trivial)
  refine tidy_bind (tidy_resolve _ _) fun source => tidy_bind (tidy_ask trivial) fun found => ?_
  cases found with
  | true => exact rfl
  | false =>
    refine tidy_bind (tidy_resolve _ _) fun target => tidy_bind (tidy_ask trivial) fun approved => ?_
    cases approved with
    | true => exact rfl
    | false => exact rfl

theorem tidy_claim (q : Quarantine) (base : Text) (left k : Nat) :
    (q.claim base left k).run.Tidy .closed := by
  induction left generalizing k with
  | zero => exact rfl
  | succ left ih =>
    rw [claim]
    refine tidy_bind (tidy_ask trivial) fun approved => ?_
    cases approved with
    | true => exact ih (k + 1)
    | false =>
      refine tidy_bind (tidy_resolve _ _) fun path => tidy_bind (tidy_ask trivial) fun made => ?_
      cases made with
      | error e =>
        cases e with
        | fileExists => exact ih (k + 1)
        | _ => exact rfl
      | ok =>
        refine tidy_bind (tidy_ask trivial) fun approved => ?_
        cases approved with
        | true => exact tidy_bind (tidy_ask trivial) fun _ => ih (k + 1)
        | false => exact rfl

theorem tidy_prepare (q : Quarantine) (now : Int) (descriptor source : Text) :
    (q.prepare now descriptor source).run.Tidy .closed := by
  unfold prepare
  cases Source.check descriptor with
  | error e => exact rfl
  | ok =>
    refine tidy_bind (tidy_ask trivial) fun kind => ?_
    rcases kind with - | - | - | -
    · exact rfl
    · exact tidy_bind (tidy_makeRoots q) fun _ => tidy_bind (tidy_claim q _ _ _) fun _ => rfl
    · exact tidy_bind (tidy_makeRoots q) fun _ => tidy_bind (tidy_claim q _ _ _) fun _ => rfl
    · exact rfl

theorem tidy_finish (kind : SourceKind) (now : Int) (descriptor source id path : Text) :
    (finish kind now descriptor source id path).run.Tidy .closed := by
  have hcopy : (copyContent kind source path).run.Tidy .closed := by
    unfold copyContent
    split
    · exact tidy_must (tidy_ask trivial)
    · exact tidy_bind (tidy_must (tidy_ask trivial)) fun _ => tidy_must (tidy_ask trivial)
  have hfill : (fill kind now descriptor source id path).run.Tidy .closed :=
    tidy_bind hcopy fun _ => tidy_bind (tidy_ask trivial) fun _ => tidy_must (tidy_ask trivial)
  have hlift : (ExceptT.lift (ExceptT.run (fill kind now descriptor source id path)) :
      Attempt (Except QuarantineError Unit)).run.Tidy .closed :=
    Tidy.andThen hfill fun _ => rfl
  refine tidy_bind hlift fun outcome => ?_
  cases outcome with
  | ok => exact rfl
  | error e => exact tidy_bind (tidy_ask trivial) fun _ => rfl

theorem tidy_mutation (q : Quarantine) (now : Int) (descriptor : Text) (m : Mutation) :
    (m.attempt q now descriptor).run.Tidy .closed := by
  cases m with
  | create source =>
    refine tidy_bind ?_ fun id => rfl
    rw [create_eq]
    exact tidy_bind (tidy_prepare q now descriptor source) fun _ => tidy_finish ..
  | decide call =>
    cases call with
    | approve id => exact tidy_bind (tidy_approve q id) fun _ => rfl
    | reject id process count => exact tidy_bind (tidy_reject q _ id) fun _ => rfl

end Quarantine

namespace Race

open Quarantine (Attempt Runs)

variable {n : Nat} {α β : Type} {r : Race n (Except QuarantineError α)} {i : Fin n}

/-- A caller can go on alone up to the end of a first attempt. -/
theorem Resting.run_bind (h : r.Resting) {first : Attempt β} {next : β → Attempt α} {b : β}
    {fs : FileSystem} (hrest : (r.callers i).rest = (first >>= next).run)
    (hfirst : Runs first r.files fs (.ok b)) (htidy : first.run.Tidy .closed)
    (hnext : ∀ b, (next b).run.Tidy .closed) :
    ∃ r', r.Reaches r' ∧ r'.Resting ∧ r'.files = fs ∧ (r'.callers i).rest = (next b).run ∧
      ∀ j, j ≠ i → (r'.callers j).rest = (r.callers j).rest := by
  rw [ExceptT.run_bind] at hrest
  obtain ⟨r', hreaches, hresting, hfiles, hrest', hothers⟩ :=
    h.run hrest htidy fun outcome => by
      cases outcome with
      | ok b => exact hnext b
      | error e => exact rfl
  unfold Runs at hfirst
  rw [hfirst] at hfiles hrest'
  exact ⟨r', hreaches, hresting, hfiles, hrest', hothers⟩

end Race

end Triage
