import Mathlib.Data.DFinsupp.WellFounded
import Mathlib.Logic.Relation
import Triage.Quarantine

/-!
Procedures that are under way at once.

In a step of a race one of the callers takes its next step as a whole; which of them does is open,
but none takes a lock that another one has. Every run of a race ends (`Race.wellFounded_step`).

What the callers of a race rely on and what they warrant is a `Protocol`: the stages in which the
files can be, the role that each caller plays, and the moves from one to the other. A procedure that
keeps to the protocol whatever stage it meets (`Protocol.Upholds`) can be followed step by step with
no other caller in view. If all callers do, the files are in some stage after every run, and the
race goes on until all callers are done (`Protocol.Governs.reaches`, `Protocol.Governs.progress`).
-/

namespace Triage

/-! ## Races -/

/-- What a caller has of the directory of an item. A directory is known by a number; the tree of
files does not tell which, so that any two handles may be on one directory or on two. -/
inductive Handle where
  | closed
  | opened (directory : Nat)
  | locked (directory : Nat)

/-- The first caller has the lock on the directory that the second one has open. -/
def Handle.excludes : Handle → Handle → Bool
  | locked d, opened d' => d == d'
  | _, _ => false

/-- The handle before and after a step that was answered so. -/
def QuarantineStep.Leaves : (s : QuarantineStep) → s.Answer → Handle → Handle → Prop
  | openItem _, .ok (), _, after => ∃ d, after = .opened d
  | lock _, _, before, after => ∃ d, before = .opened d ∧ after = .locked d
  | unlock _, _, _, after => after = .closed
  | _, _, before, after => after = before

/-- A procedure that is under way: what it still has to do, and what it has open. -/
structure Caller (α : Type) where
  rest : Procedure α
  handle : Handle

/-- Callers that are under way at once, and the files that all of them work on. -/
structure Race (n : Nat) (α : Type) where
  files : FileSystem
  callers : Fin n → Caller α

namespace Race

variable {n : Nat} {α : Type} {r r' : Race n α} {i : Fin n}

def start (files : FileSystem) (procedures : Fin n → Procedure α) : Race n α :=
  ⟨files, fun i => ⟨procedures i, .closed⟩⟩

/-- The value with which a caller is done. -/
def outcome? (r : Race n α) (i : Fin n) : Option α :=
  match (r.callers i).rest with
  | .done value => some value
  | .step .. => none

/-- The caller waits: its next step takes a lock that another one has. -/
def Waits (r : Race n α) (i : Fin n) : QuarantineStep → Prop
  | .lock _ => ∃ j, (r.callers j).handle.excludes (r.callers i).handle
  | _ => False

/-- One caller takes its next step. -/
inductive Step : Race n α → Race n α → Prop where
  | take {r : Race n α} {i : Fin n} {s : QuarantineStep} {next : s.Answer → Procedure α}
      {after : Handle} (hrest : (r.callers i).rest = .step s next) (hfree : ¬r.Waits i s)
      (hleaves : s.Leaves (s.perform r.files).2 (r.callers i).handle after) :
      Step r ⟨(s.perform r.files).1,
        Function.update r.callers i ⟨next (s.perform r.files).2, after⟩⟩

theorem outcome?_eq_some {value : α} :
    r.outcome? i = some value ↔ (r.callers i).rest = .done value := by
  rw [outcome?]
  cases (r.callers i).rest with
  | done other => simp
  | step s next => simp

theorem Step.exists_none (h : Step r r') : ∃ i, r.outcome? i = none := by
  cases h with
  | @take i s next after hrest hfree hleaves => exact ⟨i, by rw [outcome?, hrest]⟩

/-- Some steps lead from the one race to the other. -/
abbrev Reaches : Race n α → Race n α → Prop := Relation.ReflTransGen Step

end Race

/-! ## Every run ends -/

/-- The one procedure is what the other still has to do after its first step. -/
inductive Procedure.Follows {α : Type} : Procedure α → Procedure α → Prop where
  | next (s : QuarantineStep) (next : s.Answer → Procedure α) (answer : s.Answer) :
      Follows (next answer) (step s next)

theorem Procedure.wellFounded_follows {α : Type} : WellFounded (@Follows α) := by
  refine ⟨fun p => ?_⟩
  induction p with
  | done value => exact ⟨_, fun _ h => nomatch h⟩
  | step s next ih =>
    refine ⟨_, fun p h => ?_⟩
    cases h with
    | next _ _ answer => exact ih answer

namespace Race

variable {n : Nat} {α : Type} {r r' : Race n α} {i : Fin n}

/-- With every step, one caller has less to do and the others as much as before. -/
theorem Step.lex (h : Step r r') : Pi.Lex (· < ·) (fun {_} => Procedure.Follows)
    (fun i => (r'.callers i).rest) fun i => (r.callers i).rest := by
  cases h with
  | @take i s next after hrest hfree hleaves =>
    refine ⟨i, fun j hj => ?_, ?_⟩
    · simp [Function.update_of_ne hj.ne]
    · simp only [Function.update_self, hrest]
      exact .next s next _

theorem wellFounded_step : WellFounded fun r' r : Race n α => Step r r' :=
  Subrelation.wf Step.lex (InvImage.wf (fun (r : Race n α) i => (r.callers i).rest)
    (Pi.Lex.wellFounded (· < ·) fun _ => Procedure.wellFounded_follows))

/-- No race goes on for ever. -/
theorem not_forall_step (run : Nat → Race n α) : ¬∀ k, Step (run k) (run (k + 1)) := by
  intro hrun
  have hwf : IsWellFounded (Race n α) fun r' r => Step r r' := ⟨wellFounded_step⟩
  obtain ⟨k, hk⟩ := WellFounded.not_rel_apply_succ (r := fun r' r : Race n α => Step r r') run
  exact hk (hrun k)

end Race

/-! ## Waiting for a lock -/

/-- A lock is taken only on a directory that is open and not locked yet. -/
def QuarantineStep.Ready : QuarantineStep → Handle → Prop
  | lock _, handle => ∃ d, handle = .opened d
  | _, _ => True

/-- The handle after a step that was answered so; a directory that is opened has the number `d`. -/
def QuarantineStep.after (d : Nat) : (s : QuarantineStep) → s.Answer → Handle → Handle
  | openItem _, .ok (), _ => .opened d
  | lock _, _, .opened d' => .locked d'
  | unlock _, _, _ => .closed
  | _, _, before => before

theorem QuarantineStep.leaves_after (d : Nat) {s : QuarantineStep} {handle : Handle}
    (h : s.Ready handle) (answer : s.Answer) :
    s.Leaves answer handle (s.after d answer handle) := by
  cases s with
  | openItem path =>
    cases answer with
    | ok => exact ⟨d, rfl⟩
    | error e => rfl
  | lock path =>
    obtain ⟨d', rfl⟩ := h
    exact ⟨d', rfl, rfl⟩
  | resolve | «exists» | inspect | makeRoot | makeDirectory | removeDirectory | unlock | rename
  | copy | measure | write | removeTree => rfl

namespace Race

variable {n : Nat} {α : Type} {r : Race n α} {i : Fin n} {s : QuarantineStep}

/-- A caller that need not wait can take its next step. -/
theorem exists_step (r : Race n α) {next : s.Answer → Procedure α}
    (hrest : (r.callers i).rest = .step s next) (hready : s.Ready (r.callers i).handle)
    (hfree : ¬r.Waits i s) : ∃ r', r.Step r' :=
  ⟨_, .take hrest hfree (QuarantineStep.leaves_after 0 hready _)⟩

theorem Waits.exists_locked (h : r.Waits i s) : ∃ j d, (r.callers j).handle = .locked d := by
  cases s with
  | lock path =>
    obtain ⟨j, hj⟩ := h
    cases hhandle : (r.callers j).handle with
    | locked d => exact ⟨j, d, hhandle⟩
    | closed | opened =>
      rw [hhandle] at hj
      contradiction
  | _ => exact h.elim

/-- A caller that has a lock does not wait for one. -/
theorem not_waits_of_locked {d : Nat} (h : (r.callers i).handle = .locked d) : ¬r.Waits i s := by
  intro hwaits
  cases s with
  | lock path =>
    obtain ⟨j, hj⟩ := hwaits
    rw [h] at hj
    cases hhandle : (r.callers j).handle <;> rw [hhandle] at hj <;> contradiction
  | _ => exact hwaits

/-! ## Playing a race -/

instance : (s : QuarantineStep) → (handle : Handle) → Decidable (s.Ready handle)
  | .lock _, .opened d => .isTrue ⟨d, rfl⟩
  | .lock _, .closed | .lock _, .locked _ => .isFalse fun ⟨_, h⟩ => Handle.noConfusion h
  | .resolve .., _ | .exists _, _ | .inspect _, _ | .makeRoot _, _ | .makeDirectory _, _
  | .removeDirectory _, _ | .openItem _, _ | .unlock _, _ | .rename .., _ | .copy .., _
  | .measure _, _ | .write .., _ | .removeTree _, _ => .isTrue trivial

instance (r : Race n α) (i : Fin n) : (s : QuarantineStep) → Decidable (r.Waits i s)
  | .lock _ => inferInstanceAs (Decidable (∃ j, (r.callers j).handle.excludes (r.callers i).handle))
  | .resolve .. | .exists _ | .inspect _ | .makeRoot _ | .makeDirectory _ | .removeDirectory _
  | .openItem _ | .unlock _ | .rename .. | .copy .. | .measure _ | .write .. | .removeTree _ =>
    .isFalse id

/-- The race after the next step of a caller; a directory that is opened has the number `d`. -/
def take? (r : Race n α) (i : Fin n) (d : Nat) : Option (Race n α) :=
  match (r.callers i).rest with
  | .done _ => none
  | .step s next =>
    if s.Ready (r.callers i).handle ∧ ¬r.Waits i s then
      some ⟨(s.perform r.files).1, Function.update r.callers i
        ⟨next (s.perform r.files).2, s.after d (s.perform r.files).2 (r.callers i).handle⟩⟩
    else none

/-- The race after the callers have taken steps in this order, one of each mention. All that they
open is one directory. -/
def play (r : Race n α) : List (Fin n) → Option (Race n α)
  | [] => some r
  | i :: order => (r.take? i 0).bind (·.play order)

theorem step_of_take? {r' : Race n α} {d : Nat} (h : r.take? i d = some r') : r.Step r' := by
  rw [take?] at h
  cases hrest : (r.callers i).rest with
  | done value =>
    rw [hrest] at h
    contradiction
  | step s next =>
    rw [hrest] at h
    obtain ⟨⟨hready, hfree⟩, hnext⟩ := Option.ite_none_right_eq_some.mp h
    obtain rfl := Option.some.inj hnext
    exact .take hrest hfree (QuarantineStep.leaves_after d hready _)

theorem reaches_of_play {order : List (Fin n)} {r' : Race n α} (h : r.play order = some r') :
    r.Reaches r' := by
  induction order generalizing r with
  | nil =>
    obtain rfl := Option.some.inj h
    exact .refl
  | cons i order ih =>
    obtain ⟨between, htake, hplay⟩ := Option.bind_eq_some_iff.mp h
    exact .head (step_of_take? htake) (ih hplay)

end Race

/-! ## Keeping to a protocol -/

/-- The stages in which the files of a race can be, and the roles that its callers can play. -/
structure Protocol (n : Nat) (Stage Role : Type) where
  files : Stage → FileSystem
  /-- The stage is one in which the callers can have these roles. -/
  Agrees : Stage → (Fin n → Role) → Prop
  /-- A caller may turn its role and the stage into others. -/
  Moves : Fin n → Role → Stage → Role → Stage → Prop
  agrees_update : ∀ {φ φ' roles i role}, Agrees φ roles → Moves i (roles i) φ role φ' →
    Agrees φ' (Function.update roles i role)

namespace Protocol

variable {n : Nat} {Stage Role α β : Type} (P : Protocol n Stage Role)

/-- A caller of this role may find the files in this stage. -/
def Finds (i : Fin n) (role : Role) (φ : Stage) : Prop :=
  ∃ roles, P.Agrees φ roles ∧ roles i = role

/-- Whichever stage the procedure meets at a step, it makes a move of the protocol; and it ends as
it should. -/
def Upholds (i : Fin n) (ends : Role → Handle → α → Prop) : Procedure α → Role → Handle → Prop
  | .done value, role, handle => ends role handle value
  | .step s next, role, handle => s.Ready handle ∧ ∀ φ, P.Finds i role φ →
      ∃ φ' answer, s.perform (P.files φ) = (P.files φ', answer) ∧
        ∀ after, s.Leaves answer handle after →
          ∃ role', P.Moves i role φ role' φ' ∧ Upholds i ends (next answer) role' after

/-- All callers keep to the protocol, each in a role that agrees with the stage of the files. -/
def Governs (ends : Fin n → Role → Handle → α → Prop) (r : Race n α) : Prop :=
  ∃ φ roles, r.files = P.files φ ∧ P.Agrees φ roles ∧
    ∀ i, P.Upholds i (ends i) (r.callers i).rest (roles i) (r.callers i).handle

variable {P} {r r' : Race n α} {ends : Fin n → Role → Handle → α → Prop}

/-- In a step of the race one caller makes a move of the protocol, and the others stay as they
are. -/
theorem Governs.step_moves (h : P.Governs ends r) (hstep : r.Step r') :
    ∃ φ roles i role φ', r.files = P.files φ ∧ P.Agrees φ roles ∧
      P.Moves i (roles i) φ role φ' ∧ r'.files = P.files φ' ∧
      (∀ j, j ≠ i → r'.callers j = r.callers j) ∧
      ∀ j, P.Upholds j (ends j) (r'.callers j).rest (Function.update roles i role j)
        (r'.callers j).handle := by
  obtain ⟨φ, roles, hfiles, hagrees, hupholds⟩ := h
  cases hstep with
  | @take i s next after hrest hfree hleaves =>
    -- The caller that takes the step upholds the protocol on any files it can find.
    have hi := hupholds i
    rw [hrest] at hi
    obtain ⟨φ', answer, hperform, hanswer⟩ := hi.2 φ ⟨roles, hagrees, rfl⟩
    rw [hfiles, hperform] at hleaves ⊢
    obtain ⟨role, hmoves, hnext⟩ := hanswer after hleaves
    refine ⟨φ, roles, i, role, φ', rfl, hagrees, hmoves, rfl,
      fun j hj => Function.update_of_ne hj _ _, fun j => ?_⟩
    by_cases hj : j = i
    · subst hj
      simp only [Function.update_self]
      exact hnext
    · simp only [Function.update_of_ne hj]
      exact hupholds j

theorem Governs.step (h : P.Governs ends r) (hstep : r.Step r') : P.Governs ends r' := by
  obtain ⟨φ, roles, i, role, φ', -, hagrees, hmoves, hfiles, -, hupholds⟩ := h.step_moves hstep
  exact ⟨φ', _, hfiles, P.agrees_update hagrees hmoves, hupholds⟩

theorem Governs.reaches (h : P.Governs ends r) (hreaches : r.Reaches r') : P.Governs ends r' := by
  induction hreaches with
  | refl => exact h
  | tail _ hstep ih => exact ih.step hstep

/-- A caller that is done has ended as it should. -/
theorem Upholds.ends_of_outcome? {i : Fin n} {ends : Role → Handle → α → Prop} {role : Role}
    {handle : Handle} {value : α} (h : P.Upholds i ends (r.callers i).rest role handle)
    (hvalue : r.outcome? i = some value) : ends role handle value := by
  rw [Race.outcome?_eq_some.mp hvalue] at h
  exact h

/-- If no caller keeps a lock to its end, the race goes on until all are done. -/
theorem Governs.progress (h : P.Governs ends r)
    (hends : ∀ i role handle value, ends i role handle value → ∀ d, handle ≠ .locked d) :
    (∃ r', r.Step r') ∨ ∀ i, ∃ value, r.outcome? i = some value := by
  obtain ⟨φ, roles, -, -, hupholds⟩ := h
  have hready : ∀ i s next, (r.callers i).rest = .step s next → s.Ready (r.callers i).handle := by
    intro i s next hrest
    have hi := hupholds i
    rw [hrest] at hi
    exact hi.1
  by_cases hdone : ∀ i, ∃ value, r.outcome? i = some value
  · exact Or.inr hdone
  · left
    obtain ⟨i, hi⟩ := not_forall.mp hdone
    cases hrest : (r.callers i).rest with
    | done value => exact absurd ⟨value, Race.outcome?_eq_some.mpr hrest⟩ hi
    | step s next =>
      by_cases hwaits : r.Waits i s
      · -- The one that has the lock waits for nobody, and has not come to its end.
        obtain ⟨j, d, hlocked⟩ := hwaits.exists_locked
        cases hrestj : (r.callers j).rest with
        | done value =>
          have hj := (hupholds j).ends_of_outcome? (Race.outcome?_eq_some.mpr hrestj)
          exact absurd hlocked (hends j _ _ _ hj d)
        | step s' next' =>
          exact r.exists_step hrestj (hready j s' next' hrestj) (Race.not_waits_of_locked hlocked)
      · exact r.exists_step hrest (hready i s next hrest) hwaits

/-! ## Following a procedure -/

variable {i : Fin n} {role : Role} {handle : Handle}

theorem upholds_andThen {ends : Role → Handle → β → Prop} {p : Procedure α}
    {next : α → Procedure β} :
    P.Upholds i ends (p.andThen next) role handle ↔
      P.Upholds i (fun role handle value => P.Upholds i ends (next value) role handle) p role
        handle := by
  induction p generalizing role handle with
  | done value => exact Iff.rfl
  | step s rest ih => simp only [Procedure.andThen, Upholds, ih]

theorem upholds_congr {ends ends' : Role → Handle → α → Prop} {p : Procedure α}
    (h : ∀ role handle value, ends role handle value ↔ ends' role handle value) :
    P.Upholds i ends p role handle ↔ P.Upholds i ends' p role handle := by
  have heq : ends = ends' := by
    funext role handle value
    exact propext (h role handle value)
  rw [heq]

open Quarantine (Attempt)

variable {ends : Role → Handle → Except QuarantineError β → Prop}

theorem upholds_bind {first : Attempt α} {next : α → Attempt β} :
    P.Upholds i ends (first >>= next).run role handle ↔
      P.Upholds i (fun role handle outcome =>
        match outcome with
        | .ok a => P.Upholds i ends (next a).run role handle
        | .error e => ends role handle (.error e)) first.run role handle := by
  rw [ExceptT.run_bind]
  refine upholds_andThen.trans (upholds_congr fun role handle outcome => ?_)
  cases outcome with
  | ok a => exact Iff.rfl
  | error e => exact Iff.rfl

theorem upholds_ask {s : QuarantineStep} {next : s.Answer → Attempt β} (hready : s.Ready handle)
    (h : ∀ φ, P.Finds i role φ → ∃ φ' answer, s.perform (P.files φ) = (P.files φ', answer) ∧
      ∀ after, s.Leaves answer handle after →
        ∃ role', P.Moves i role φ role' φ' ∧ P.Upholds i ends (next answer).run role' after) :
    P.Upholds i ends (Attempt.ask s >>= next).run role handle :=
  upholds_bind.mpr ⟨hready, h⟩

theorem upholds_resolve {root id : Text} {next : Text → Attempt β}
    (h : ∀ φ, P.Finds i role φ → ∃ role', P.Moves i role φ role' φ ∧
      match QuarantineStep.resolvePath (P.files φ) root id with
      | .ok path => P.Upholds i ends (next path).run role' handle
      | .error e => ends role' handle (.error e)) :
    P.Upholds i ends (Attempt.resolve root id >>= next).run role handle := by
  refine upholds_bind.mpr (upholds_ask trivial fun φ hφ => ⟨φ, _, rfl, ?_⟩)
  intro after hafter
  subst hafter
  obtain ⟨role', hmoves, hnext⟩ := h φ hφ
  refine ⟨role', hmoves, ?_⟩
  cases hresolve : QuarantineStep.resolvePath (P.files φ) root id with
  | ok path =>
    rw [hresolve] at hnext
    exact hnext
  | error e =>
    rw [hresolve] at hnext
    exact hnext

theorem upholds_exists {path : Text} {next : Bool → Attempt β}
    (h : ∀ φ, P.Finds i role φ → ∃ role', P.Moves i role φ role' φ ∧
      P.Upholds i ends (next ((P.files φ).entryExists path)).run role' handle) :
    P.Upholds i ends (Attempt.ask (.exists path) >>= next).run role handle := by
  refine upholds_ask trivial fun φ hφ => ⟨φ, _, rfl, ?_⟩
  intro after hafter
  subst hafter
  exact h φ hφ

theorem upholds_must {ends : Role → Handle → Except QuarantineError Unit → Prop}
    {outcome : Attempt (Except FileError Unit)} {meaning : FileError → QuarantineError} :
    P.Upholds i ends (Attempt.must outcome meaning).run role handle ↔
      P.Upholds i (fun role handle answer =>
        match answer with
        | .ok (.ok ()) => ends role handle (.ok ())
        | .ok (.error e) => ends role handle (.error (meaning e))
        | .error e => ends role handle (.error e)) outcome.run role handle := by
  refine upholds_bind.trans (upholds_congr fun role handle answer => ?_)
  obtain e | e | ⟨⟩ := answer
  · exact Iff.rfl
  · exact Iff.rfl
  · exact Iff.rfl

end Protocol

end Triage
