import Triage.Proofs.FileSystem.Making
import Triage.Proofs.Quarantine.Calls

/-!
Attempts whose steps may fail at any time.

A step may fail though nothing in the files stands against it, and leave half of what it does
(`QuarantineStep.BreaksOff`). `Ensures` says what holds of the files whatever comes of an attempt, by
one rule for each way to put attempts together and one for each step. Making the roots, even if it
breaks off, changes nothing but that directories are made on the way to them (`ensures_makeRoots`).
-/

namespace Triage

open FileSystem (Made)

/-! ## Steps that may fail at any time -/

namespace QuarantineStep

/-- How a step may fail though nothing in the files stands against it: the system refuses it, or what
it does breaks off and leaves what was done until then. Steps that only look at the files, but for
the finding of a path, give an answer whatever happens, and what takes something away is done. -/
def BreaksOff (fs : FileSystem) : (step : QuarantineStep) → FileSystem → step.Answer → Prop
  | resolve _ id, fs', answer =>
    ItemId.isValid id ∧ fs' = fs ∧ ∃ path cause, answer = .error (.cannotResolve path cause)
  | makeRoot path, fs', answer =>
    fs.kind? path = .ok none ∧ (∃ missing made,
      fs.missingDirectories [] (FileSystem.leadingParts path) = .ok missing ∧
        made <+: missing ∧ fs' = (fs.ensureAll made).1) ∧ ∃ cause, answer = .error cause
  | makeDirectory _, fs', answer | openItem _, fs', answer | rename _ _, fs', answer =>
    fs' = fs ∧ ∃ cause, answer = .error cause
  | copy _ target, fs', answer =>
    (∃ place copied, fs.locate false target = .ok ⟨place, none⟩ ∧ fs' = fs.setAt place copied) ∧
      ∃ cause, answer = .error cause
  | write path _, fs', answer =>
    (∃ place written, fs.locate false path = .ok ⟨place, none⟩ ∧ fs' = fs.setAt place written) ∧
      ∃ cause, answer = .error cause
  | _, _, _ => False

/-- What may come of a step. -/
def MayGive (fs : FileSystem) (step : QuarantineStep) (fs' : FileSystem) (answer : step.Answer) :
    Prop :=
  (fs', answer) = step.perform fs ∨ step.BreaksOff fs fs' answer

/-- A change is made, or fails and leaves the files as they were. -/
theorem eq_change {fs fs' : FileSystem} {changed : Except FileError FileSystem}
    {answer : Except FileError Unit} (h : (fs', answer) = change fs changed) :
    (answer = .ok () → changed = .ok fs') ∧ ∀ cause, answer = .error cause → fs' = fs := by
  cases changed with
  | ok made =>
    obtain ⟨rfl, rfl⟩ := Prod.mk.inj h
    exact ⟨fun _ => rfl, fun cause hcause => by contradiction⟩
  | error e =>
    obtain ⟨rfl, rfl⟩ := Prod.mk.inj h
    exact ⟨fun hok => by contradiction, fun _ _ => rfl⟩

end QuarantineStep

/-- What may come of a procedure. -/
def Procedure.MayEnd {α : Type} : Procedure α → FileSystem → FileSystem → α → Prop
  | .done value, fs, fs', outcome => fs' = fs ∧ outcome = value
  | .step s next, fs, fs', outcome => ∃ between answer,
    s.MayGive fs between answer ∧ (next answer).MayEnd between fs' outcome

namespace Procedure

variable {α β : Type}

/-- The run in which nothing breaks off is one of those that may come. -/
theorem mayEnd_run (p : Procedure α) (fs : FileSystem) : p.MayEnd fs (p.run fs).1 (p.run fs).2 := by
  induction p generalizing fs with
  | done value => exact ⟨rfl, rfl⟩
  | step s next ih => exact ⟨_, _, Or.inl rfl, ih _ _⟩

theorem mayEnd_andThen {p : Procedure α} {next : α → Procedure β} {fs fs' : FileSystem}
    {outcome : β} (h : (p.andThen next).MayEnd fs fs' outcome) :
    ∃ between value, p.MayEnd fs between value ∧ (next value).MayEnd between fs' outcome := by
  induction p generalizing fs with
  | done value => exact ⟨fs, value, ⟨rfl, rfl⟩, h⟩
  | step s rest ih =>
    obtain ⟨between, answer, hstep, hrest⟩ := h
    obtain ⟨between', value, hends, hnext⟩ := ih answer hrest
    exact ⟨between', value, ⟨between, answer, hstep, hends⟩, hnext⟩

end Procedure

namespace Quarantine

variable {α β : Type} {fs fs' fs'' : FileSystem} {e : QuarantineError}

/-! ## What an attempt ensures -/

/-- If the attempt succeeds, the one condition holds of the files and the value; if it fails, the
other one holds of the files and the error. -/
def Ensures (attempt : Attempt α) (fs : FileSystem) (done : FileSystem → α → Prop)
    (failed : FileSystem → QuarantineError → Prop) : Prop :=
  ∀ fs' outcome, attempt.run.MayEnd fs fs' outcome →
    match outcome with
    | .ok value => done fs' value
    | .error e => failed fs' e

section Rules

variable {done : FileSystem → α → Prop} {done' : FileSystem → β → Prop}
variable {failed : FileSystem → QuarantineError → Prop}

theorem ensures_pure {a : α} (h : done fs a) : Ensures (pure a) fs done failed := by
  rintro fs' outcome ⟨rfl, rfl⟩
  exact h

theorem ensures_throw (h : failed fs e) : Ensures (throw e : Attempt α) fs done failed := by
  rintro fs' outcome ⟨rfl, rfl⟩
  exact h

theorem Ensures.bind {first : Attempt α} {next : α → Attempt β} (h : Ensures first fs done failed)
    (h' : ∀ fs' a, done fs' a → Ensures (next a) fs' done' failed) :
    Ensures (first >>= next) fs done' failed := by
  intro fs' outcome hends
  obtain ⟨between, value, hfirst, hnext⟩ := Procedure.mayEnd_andThen hends
  have hbetween := h between value hfirst
  cases value with
  | ok a => exact h' between a hbetween fs' outcome hnext
  | error e =>
    obtain ⟨rfl, rfl⟩ := hnext
    exact hbetween

theorem ensures_ask {s : QuarantineStep} {done : FileSystem → s.Answer → Prop}
    (h : ∀ fs' answer, s.MayGive fs fs' answer → done fs' answer) :
    Ensures (Attempt.ask s) fs done failed := by
  rintro fs' outcome ⟨between, answer, hstep, rfl, rfl⟩
  exact h _ answer hstep

/-- Nothing is done after a failure. -/
theorem ensures_throw_bind {next : α → Attempt β} (h : failed fs e) :
    Ensures ((throw e : Attempt α) >>= next) fs done' failed := by
  rintro fs' outcome ⟨rfl, rfl⟩
  exact h

theorem ensures_step {s : QuarantineStep} :
    Ensures (Attempt.ask s) fs (fun fs' answer => s.MayGive fs fs' answer) failed :=
  ensures_ask fun _ _ h => h

theorem ensures_must {first : Attempt (Except FileError Unit)}
    {meaning : FileError → QuarantineError} {done : FileSystem → Unit → Prop}
    (h : Ensures first fs (fun fs' answer => (answer = .ok () → done fs' ()) ∧
      ∀ cause, answer = .error cause → failed fs' (meaning cause)) failed) :
    Ensures (Attempt.must first meaning) fs done failed := by
  refine h.bind fun fs' answer hanswer => ?_
  cases answer with
  | ok a => exact ensures_pure (hanswer.1 rfl)
  | error cause => exact ensures_throw (hanswer.2 cause rfl)

/-- Finding a path changes nothing. -/
theorem ensures_resolve (root id : Text) : Ensures (Attempt.resolve root id) fs
    (fun fs' path => fs' = fs ∧ QuarantineStep.resolvePath fs root id = .ok path)
    (fun fs' e => fs' = fs ∧ (QuarantineStep.resolvePath fs root id = .error e ∨
      ItemId.isValid id ∧ ∃ path cause, e = .cannotResolve path cause)) := by
  refine ensures_step.bind fun fs' answer hanswer => ?_
  rcases hanswer with h | ⟨hid, rfl, path, cause, rfl⟩
  · obtain ⟨rfl, hresolved⟩ := Prod.mk.inj h
    cases answer with
    | ok path => exact ensures_pure ⟨rfl, hresolved.symm⟩
    | error e => exact ensures_throw ⟨rfl, Or.inl hresolved.symm⟩
  · exact ensures_throw ⟨rfl, Or.inr ⟨hid, path, cause, rfl⟩⟩

/-- A step that only looks at the files changes nothing. -/
theorem ensures_unchanged (s : QuarantineStep) (hgives : ∀ fs' answer, ¬s.BreaksOff fs fs' answer)
    (hsame : (s.perform fs).1 = fs) :
    Ensures (Attempt.ask s) fs (fun fs' _ => fs' = fs) failed := by
  refine ensures_ask fun fs' answer hanswer => ?_
  rcases hanswer with h | h
  · exact (congrArg Prod.fst h).trans hsame
  · exact absurd h (hgives fs' answer)

/-- Looking at an entry changes nothing. -/
theorem ensures_exists (path : Text) : Ensures (Attempt.ask (.exists path)) fs
    (fun fs' found => fs' = fs ∧ fs.entryExists path = found) failed := by
  refine ensures_ask fun fs' answer hanswer => ?_
  rcases hanswer with h | h
  · obtain ⟨rfl, rfl⟩ := Prod.mk.inj h
    exact ⟨rfl, rfl⟩
  · exact h.elim

/-- An attempt whose failure is no failure of the whole. -/
theorem Ensures.caught {attempt : Attempt α} (h : Ensures attempt fs done failed)
    {failed' : FileSystem → QuarantineError → Prop} :
    Ensures (ExceptT.lift (ExceptT.run attempt)) fs
      (fun fs' outcome => match outcome with
        | .ok value => done fs' value
        | .error e => failed fs' e) failed' := by
  intro fs' outcome hends
  obtain ⟨between, value, hattempt, rfl, rfl⟩ := Procedure.mayEnd_andThen hends
  exact h _ value hattempt

theorem Ensures.mono {attempt : Attempt α} (h : Ensures attempt fs done failed)
    {done' : FileSystem → α → Prop} {failed' : FileSystem → QuarantineError → Prop}
    (hdone : ∀ fs' a, done fs' a → done' fs' a) (hfailed : ∀ fs' e, failed fs' e → failed' fs' e) :
    Ensures attempt fs done' failed' := by
  intro fs' outcome hends
  have houtcome := h fs' outcome hends
  cases outcome with
  | ok a => exact hdone fs' a houtcome
  | error e => exact hfailed fs' e houtcome

end Rules

/-! ## Making the roots -/

/-- The parts of the paths of the two roots: a directory that is missing on the way to a root is
made where one of these leads. -/
def ways (q : Quarantine) : List Text :=
  FileSystem.leadingParts q.root ++ FileSystem.leadingParts q.approvedRoot

/-- Nothing was done but that directories on the way to the roots were made, if one was missing. -/
structure RootsMade (q : Quarantine) (fs fs' : FileSystem) : Prop where
  made : Made q.ways fs fs'
  unchanged : fs.isDirectory q.root → fs.isDirectory q.approvedRoot → fs' = fs

theorem RootsMade.nothing {q : Quarantine} : RootsMade q fs fs := ⟨.nothing, fun _ _ => rfl⟩

/-- The root is made, or the making of it breaks off. -/
theorem made_of_mayGive {path : Text} {answer : Except FileError Unit}
    (h : (QuarantineStep.makeRoot path).MayGive fs fs' answer) :
    Made (FileSystem.leadingParts path) fs fs' ∧ (fs.isDirectory path → fs' = fs) := by
  rcases h with h | ⟨hmissing, ⟨missing, made, hparts, hmade, rfl⟩, -⟩
  · obtain rfl : fs' = (fs.makeDirectories path).1 := congrArg Prod.fst h
    refine ⟨FileSystem.made_makeDirectories fs path, fun hdir => ?_⟩
    rw [FileSystem.makeDirectories_of_isDirectory hdir]
  · refine ⟨FileSystem.made_ensureAll fun part hpart => ?_, fun hdir => ?_⟩
    · exact (FileSystem.missingDirectories_subset hparts part (hmade.subset hpart)).resolve_left
        List.not_mem_nil
    · obtain ⟨ns, es, hleads⟩ := FileSystem.isDirectory_iff.mp hdir
      rw [FileSystem.kind?_of_leadsTo hleads] at hmissing
      contradiction

variable {q : Quarantine}

theorem ensures_makeRoot (path : Text) : Ensures
    (Attempt.must (Attempt.ask (.makeRoot path)) (.cannotCreate path)) fs
    (fun fs' _ => Made (FileSystem.leadingParts path) fs fs' ∧ (fs.isDirectory path → fs' = fs))
    (fun fs' e => (Made (FileSystem.leadingParts path) fs fs' ∧ (fs.isDirectory path → fs' = fs)) ∧
      ∃ cause, e = .cannotCreate path cause) :=
  ensures_must (ensures_ask fun _ _ hanswer =>
    ⟨fun _ => made_of_mayGive hanswer, fun cause _ => ⟨made_of_mayGive hanswer, cause, rfl⟩⟩)

theorem ensures_makeRoots : Ensures q.makeRoots fs (fun fs' _ => RootsMade q fs fs')
    (fun fs' e => RootsMade q fs fs' ∧ ∃ path cause, e = .cannotCreate path cause) := by
  have hroot : ∀ {fs'}, Made (FileSystem.leadingParts q.root) fs fs' → Made q.ways fs fs' :=
    Made.mono fun _ => List.mem_append_left _
  have happroved : ∀ {fs fs'}, Made (FileSystem.leadingParts q.approvedRoot) fs fs' →
      Made q.ways fs fs' := Made.mono fun _ => List.mem_append_right _
  have hfirst : Ensures (Attempt.must (Attempt.ask (.makeRoot q.root)) (.cannotCreate q.root)) fs
      (fun fs' _ => Made q.ways fs fs' ∧ (fs.isDirectory q.root → fs' = fs))
      (fun fs' e => RootsMade q fs fs' ∧ ∃ path cause, e = .cannotCreate path cause) :=
    (ensures_makeRoot q.root).mono (fun _ _ h => ⟨hroot h.1, h.2⟩)
      fun _ _ h => ⟨⟨hroot h.1.1, fun hdir _ => h.1.2 hdir⟩, _, h.2⟩
  refine hfirst.bind fun fs₁ _ hmade => ?_
  have hboth : ∀ {fs₂}, Made (FileSystem.leadingParts q.approvedRoot) fs₁ fs₂ ∧
      (fs₁.isDirectory q.approvedRoot → fs₂ = fs₁) → RootsMade q fs fs₂ := by
    rintro fs₂ ⟨hsecond, hsame⟩
    refine ⟨hmade.1.trans (happroved hsecond), fun hdir hdir' => ?_⟩
    obtain rfl := hmade.2 hdir
    exact hsame hdir'
  exact (ensures_makeRoot q.approvedRoot).mono (fun _ _ h => hboth h)
    fun _ _ h => ⟨hboth h.1, _, h.2⟩

end Quarantine

end Triage
