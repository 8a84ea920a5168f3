import Triage.Proofs.Quarantine.Failure

/-!
Creations that fail.

A creation first makes the roots, then claims an id, then fills the directory of the item: until the
item stands, all that it has done beyond the roots is one directory, where nothing was (`MadeAt`,
`FilledAt`), and taking this away again leaves no trace. So does every creation that fails, even if
its steps break off (`create_failed`), but for what was made on the way to the roots.
-/

namespace Triage

open FileSystem (AgreeAt)

/-- The errors of a creation that finds nothing it could take in. -/
def QuarantineError.isEarly : QuarantineError → Bool
  | unusableSource _ => true
  | e => e.kind == .invalidSource || e.kind == .notFound

theorem QuarantineStep.isEarly_of_resolvePath {fs : FileSystem} {root id : Text}
    {e : QuarantineError} (h : resolvePath fs root id = .error e) : e.isEarly = false := by
  simp only [resolvePath] at h
  split at h
  · obtain rfl := Except.error.inj h
    rfl
  split at h
  · obtain rfl := Except.error.inj h
    rfl
  split at h
  · obtain rfl := Except.error.inj h
    rfl
  split at h
  · split at h
    · obtain rfl := Except.error.inj h
      rfl
    split at h
    · obtain rfl := Except.error.inj h
      rfl
    · contradiction
  · obtain rfl := Except.error.inj h
    rfl

namespace Quarantine

variable {fs fs' fs'' : FileSystem} {e : QuarantineError} {q : Quarantine}

/-! ## Claiming an id -/

/-- Nothing was done but that an empty directory was made at the path, where nothing was. -/
def MadeAt (path : Text) (fs fs' : FileSystem) : Prop :=
  ∃ place, fs.locate false path = .ok ⟨place, none⟩ ∧ fs' = fs.setAt place (some Node.empty)

theorem madeAt_of_mayGive {path : Text} {answer : Except FileError Unit}
    (h : (QuarantineStep.makeDirectory path).MayGive fs fs' answer) :
    (answer = .ok () → MadeAt path fs fs') ∧ ∀ cause, answer = .error cause → fs' = fs := by
  rcases h with h | ⟨hfs, cause, rfl⟩
  · obtain ⟨hok, herror⟩ := QuarantineStep.eq_change h
    exact ⟨fun hanswer => FileSystem.makeDirectory_eq_ok (hok hanswer), herror⟩
  · exact ⟨fun hok => by contradiction, fun _ _ => hfs⟩

theorem ensures_makeDirectory (path : Text) (meaning : FileError → QuarantineError) :
    Ensures (Attempt.must (Attempt.ask (.makeDirectory path)) meaning) fs
      (fun fs' _ => MadeAt path fs fs') (fun fs' e => fs' = fs ∧ ∃ cause, e = meaning cause) := by
  refine ensures_must (ensures_ask fun fs' answer hanswer => ?_)
  obtain ⟨hmade, hfailed⟩ := madeAt_of_mayGive hanswer
  exact ⟨hmade, fun cause hcause => ⟨hfailed cause hcause, cause, rfl⟩⟩

/-- An id that turns out to be approved is given up without a trace. -/
theorem eq_of_mayGive_removeDirectory {path : Text} {answer : Except FileError Unit}
    (hmade : MadeAt path fs fs')
    (h : (QuarantineStep.removeDirectory path).MayGive fs' fs'' answer) : fs'' = fs := by
  obtain ⟨place, hmissing, rfl⟩ := hmade
  have hfree := FileSystem.isFree_of_locate hmissing
  have hlocate := FileSystem.locate_setAt hmissing []
  have hremove : (fs.setAt place (some Node.empty)).removeDirectory path = .ok fs := by
    rw [FileSystem.removeDirectory, Node.empty, hlocate]
    show Except.ok _ = Except.ok _
    rw [hfree.setAt_setAt, hfree.setAt_none]
  rcases h with h | h
  · rw [QuarantineStep.perform, hremove, QuarantineStep.change] at h
    exact congrArg Prod.fst h
  · exact h.elim

theorem ensures_claim (base : Text) (left n : Nat) : Ensures (q.claim base left n) fs
    (fun fs' claimed => MadeAt claimed.2 fs fs') (fun fs' e => fs' = fs ∧ e.isEarly = false) := by
  induction left generalizing n with
  | zero => exact ensures_throw ⟨rfl, rfl⟩
  | succ left ih =>
    rw [claim]
    refine (ensures_exists _).bind ?_
    rintro _ (_ | _) ⟨rfl, -⟩
    · refine ((ensures_resolve q.root _).mono (fun _ _ h => h) ?_).bind ?_
      · rintro fs' e ⟨hfs, hresolved | ⟨-, path, cause, rfl⟩⟩
        · exact ⟨hfs, QuarantineStep.isEarly_of_resolvePath hresolved⟩
        · exact ⟨hfs, rfl⟩
      rintro fs₁ path ⟨rfl, -⟩
      refine (ensures_ask fun _ _ => madeAt_of_mayGive).bind ?_
      rintro fs₂ answer ⟨hmade, hfailed⟩
      split
      · obtain rfl := hfailed _ rfl
        exact ih _
      · exact ensures_throw ⟨hfailed _ rfl, rfl⟩
      · have hmade := hmade rfl
        refine (ensures_exists _).bind ?_
        rintro _ (_ | _) ⟨rfl, -⟩
        · exact ensures_pure hmade
        · refine (ensures_ask fun _ _ => eq_of_mayGive_removeDirectory hmade).bind ?_
          rintro _ _ rfl
          exact ih _
    · exact ih _

/-! ## Filling the directory of an item -/

/-- Nothing was done but that a directory was made at the path, where nothing was, and filled. -/
def FilledAt (path : Text) (fs fs' : FileSystem) : Prop :=
  ∃ place es, fs.locate false path = .ok ⟨place, none⟩ ∧
    fs' = fs.setAt place (some (.directory es))

/-- Nothing was done but that something was put at the path, where nothing was, if anything. -/
def PutAt (path : Text) (fs fs' : FileSystem) : Prop :=
  fs' = fs ∨ ∃ place v, fs.locate false path = .ok ⟨place, none⟩ ∧ fs' = fs.setAt place v

section Filling

variable {path name : Text}

theorem MadeAt.filledAt (h : MadeAt path fs fs') : FilledAt path fs fs' := by
  obtain ⟨place, hmissing, rfl⟩ := h
  exact ⟨place, [], hmissing, rfl⟩

/-- What is put into the directory, or further below it, counts as its filling. -/
theorem FilledAt.put (h : FilledAt path fs fs') (hslash : Byte.slash ∉ name)
    (hput : PutAt (Path.join path name) fs' fs'') : FilledAt path fs fs'' := by
  rcases hput with rfl | ⟨place', v, hmissing', rfl⟩
  · exact h
  · obtain ⟨place, es, hmissing, rfl⟩ := h
    obtain ⟨x, rfl⟩ := FileSystem.eq_concat_of_locate_join
      (FileSystem.leadsTo_setAt hmissing es) hslash hmissing'
    refine ⟨place, Node.setEntry x v es, hmissing, ?_⟩
    exact (FileSystem.isFree_of_locate hmissing).setAt_below _ (List.cons_ne_nil x []) v

theorem FilledAt.fill (h : FilledAt path fs fs') (hslash : Byte.slash ∉ name)
    (hfill : FilledAt (Path.join path name) fs' fs'') : FilledAt path fs fs'' := by
  obtain ⟨place', es', hmissing', rfl⟩ := hfill
  exact h.put hslash (Or.inr ⟨place', _, hmissing', rfl⟩)

theorem putAt_of_mayGive_copy {source : Text} {answer : Except FileError Unit}
    (h : (QuarantineStep.copy source path).MayGive fs fs' answer) : PutAt path fs fs' := by
  rcases h with h | ⟨⟨place, copied, hmissing, rfl⟩, -⟩
  · obtain rfl : fs' = (fs.copyTree source path).1 := congrArg Prod.fst h
    rw [FileSystem.copyTree]
    split
    · exact Or.inl rfl
    · exact Or.inl rfl
    · rename_i n found hnode hlocate
      split
      · exact Or.inl rfl
      · rename_i hnone
        refine Or.inr ⟨found.names, n.copy.1, ?_, rfl⟩
        rw [hlocate, ← hnone]
  · exact Or.inr ⟨place, copied, hmissing, rfl⟩

theorem putAt_of_mayGive_write {text : Text} {answer : Except FileError Unit}
    (h : (QuarantineStep.write path text).MayGive fs fs' answer) : PutAt path fs fs' := by
  rcases h with h | ⟨⟨place, written, hmissing, rfl⟩, -⟩
  · obtain ⟨hok, herror⟩ := QuarantineStep.eq_change h
    cases answer with
    | ok =>
      obtain ⟨place, hmissing, rfl⟩ := FileSystem.writeNew_eq_ok (hok rfl)
      exact Or.inr ⟨place, _, hmissing, rfl⟩
    | error cause => exact Or.inl (herror cause rfl)
  · exact Or.inr ⟨place, written, hmissing, rfl⟩

theorem ensures_copyContent {fs₀ : FileSystem} (h : FilledAt path fs₀ fs) (kind : SourceKind)
    (source : Text) : Ensures (copyContent kind source path) fs
      (fun fs' _ => FilledAt path fs₀ fs')
      (fun fs' e => FilledAt path fs₀ fs' ∧ e.isEarly = false) := by
  have hcontent : Byte.slash ∉ "content".ascii := by decide
  rw [copyContent]
  split
  · refine ensures_must (ensures_ask fun fs' answer hanswer => ?_)
    have hfilled := h.put hcontent (putAt_of_mayGive_copy hanswer)
    exact ⟨fun _ => hfilled, fun _ _ => ⟨hfilled, rfl⟩⟩
  · refine ((ensures_makeDirectory _ _).mono (fun _ _ h => h) ?_).bind fun fs₁ _ hmade => ?_
    · rintro fs' e ⟨rfl, cause, rfl⟩
      exact ⟨h, rfl⟩
    · refine ensures_must (ensures_ask fun fs' answer hanswer => ?_)
      have hfilled := h.fill hcontent
        (hmade.filledAt.put (Path.slash_not_mem_fileName source) (putAt_of_mayGive_copy hanswer))
      exact ⟨fun _ => hfilled, fun _ _ => ⟨hfilled, rfl⟩⟩

theorem ensures_fill {fs₀ : FileSystem} (h : FilledAt path fs₀ fs) (kind : SourceKind) (now : Int)
    (descriptor source id : Text) : Ensures (fill kind now descriptor source id path) fs
      (fun fs' _ => FilledAt path fs₀ fs')
      (fun fs' e => FilledAt path fs₀ fs' ∧ e.isEarly = false) := by
  have hname : Byte.slash ∉ "meta.json".ascii := by decide
  refine (ensures_copyContent h kind source).bind fun fs₁ _ hfilled => ?_
  refine (ensures_unchanged (.measure _) (fun _ _ h => h) rfl).bind ?_
  rintro _ size rfl
  refine ensures_must (ensures_ask fun fs' answer hanswer => ?_)
  have hfilled := hfilled.put hname (putAt_of_mayGive_write hanswer)
  exact ⟨fun _ => hfilled, fun _ _ => ⟨hfilled, rfl⟩⟩

/-- The directory of an item that came to nothing is removed without a trace. -/
theorem FilledAt.eq_of_mayGive_removeTree {answer : Except FileError Unit}
    (h : FilledAt path fs fs')
    (hremove : (QuarantineStep.removeTree path).MayGive fs' fs'' answer) : fs'' = fs := by
  obtain ⟨place, es, hmissing, rfl⟩ := h
  have hfree := FileSystem.isFree_of_locate hmissing
  have hremoved := FileSystem.removeTree_of_locate (FileSystem.locate_setAt hmissing es)
  rw [hfree.setAt_setAt, hfree.setAt_none] at hremoved
  rcases hremove with hremove | hremove
  · rw [QuarantineStep.perform_removeTree hremoved] at hremove
    exact congrArg Prod.fst hremove
  · exact hremove.elim

end Filling

/-! ## Creations that fail -/

theorem ensures_create (now : Int) (descriptor source : Text) :
    Ensures (q.create now descriptor source) fs (fun _ _ => True)
      (fun fs' e => (e.isEarly → fs' = fs) ∧ RootsMade q fs fs') := by
  have hlate : ∀ {fs' : FileSystem} {e : QuarantineError}, RootsMade q fs fs' ∧ e.isEarly = false →
      (e.isEarly → fs' = fs) ∧ RootsMade q fs fs' := by
    rintro fs' e ⟨hroots, he⟩
    exact ⟨fun hearly => by simp [he] at hearly, hroots⟩
  unfold create
  split
  · show Ensures (Attempt.ask (.inspect source) >>= _) _ _ _
    refine (ensures_unchanged (.inspect source) (fun _ _ h => h) rfl).bind ?_
    rintro _ kind rfl
    split
    · exact ensures_throw ⟨fun _ => rfl, .nothing⟩
    · exact ensures_throw ⟨fun _ => rfl, .nothing⟩
    · rename_i kind _
      refine (ensures_makeRoots.mono (fun _ _ h => h) ?_).bind fun fs₁ _ hroots => ?_
      · rintro _ e ⟨hroots, path, cause, rfl⟩
        exact hlate ⟨hroots, rfl⟩
      refine ((ensures_claim _ _ _).mono (fun _ _ h => h) ?_).bind ?_
      · rintro _ e ⟨rfl, he⟩
        exact hlate ⟨hroots, he⟩
      rintro fs₂ ⟨id, path⟩ hmade
      refine (ensures_fill hmade.filledAt kind now descriptor source id).caught.bind ?_
      intro fs₃ outcome houtcome
      split
      · exact ensures_pure trivial
      · obtain ⟨hfilled, he⟩ := houtcome
        refine (ensures_ask fun _ _ => hfilled.eq_of_mayGive_removeTree).bind ?_
        rintro _ _ rfl
        exact ensures_throw (hlate ⟨hroots, he⟩)
  · exact ensures_throw ⟨fun _ => rfl, .nothing⟩

/-- **A creation that fails leaves no trace**, even if steps break off at any time. If there is
nothing that it could take in, or if both roots are there, the files are as they were. Else nothing
was done but that directories were made on the way to the roots, as the paths of the roots are
written; a tree in which none of these stands is exactly as it was, be it that of an item, that of
the source, or any other. -/
theorem create_failed {now : Int} {descriptor source : Text}
    (h : (q.create now descriptor source).run.MayEnd fs fs' (.error e)) :
    (e.isEarly → fs' = fs) ∧
    (fs.isDirectory q.root → fs.isDirectory q.approvedRoot → fs' = fs) ∧
    fs'.workingDirectory = fs.workingDirectory ∧
    (∀ ns, AgreeAt fs fs' ns ∨
      fs.nodeAt? ns = none ∧ ∃ path ∈ q.ways, ∃ es, fs'.LeadsTo path ns es) ∧
    ∀ ns n, fs.nodeAt? ns = some n →
      (∀ path ∈ q.ways, ∀ more es, fs'.LeadsTo path (ns ++ more) es →
        fs.nodeAt? (ns ++ more) ≠ none) →
      fs'.nodeAt? ns = some n := by
  obtain ⟨hearly, hroots⟩ : (e.isEarly → fs' = fs) ∧ RootsMade q fs fs' :=
    ensures_create now descriptor source fs' (.error e) h
  exact ⟨hearly, hroots.unchanged, hroots.made.workingDirectory, hroots.made.agreeAt,
    fun _ _ hn hold => hroots.made.nodeAt?_eq hn hold⟩

/-- A quarantine whose roots are named without any way. -/
def namedRoots : Quarantine := ⟨"q".ascii, "p".ascii⟩

/-- Both roots, and a source that cannot be copied to its end. -/
def pipeInside : FileSystem :=
  ⟨.directory [("q".ascii, Node.empty), ("p".ascii, Node.empty),
    ("s".ascii, .directory [("a".ascii, .file ⟨"x".ascii, 0, false⟩), ("b".ascii, .pipe)])], []⟩

theorem create_failed_pipe :
    let ended := Procedure.run pipeInside (namedRoots.create 0 "pkg".ascii "s".ascii).run
    ended.2 = .error (.cannotCopy "s".ascii "/q/19700101_000000_pkg/content".ascii .invalid) ∧
      ended.1 = pipeInside := by
  have houtcome :
      (Procedure.run pipeInside (namedRoots.create 0 "pkg".ascii "s".ascii).run).2 =
        .error (.cannotCopy "s".ascii "/q/19700101_000000_pkg/content".ascii .invalid) := by cbv
  have hends := Procedure.mayEnd_run (namedRoots.create 0 "pkg".ascii "s".ascii).run pipeInside
  rw [houtcome] at hends
  exact ⟨houtcome, (create_failed hends).2.1 (by cbv) (by cbv)⟩

/-- A source in the quarantine, and a file beside it. -/
def sourceInside : FileSystem :=
  ⟨.directory [("q".ascii, .directory [("s".ascii, Node.empty)]),
    ("f".ascii, .file ⟨[], 0, false⟩)], []⟩

/-- The approved items have no place, on a way that leads through the source. -/
def throughSource : Quarantine := ⟨"q".ascii, "q/s/a/../../../f/x".ascii⟩

/-- The way to a root may lead through the source, as it is written: then a directory is made there,
though no root is, and it stays. -/
theorem create_throughSource :
    let ended := Procedure.run sourceInside (throughSource.create 0 "pkg".ascii "q/s".ascii).run
    sourceInside.LeadsTo throughSource.root ["q".ascii] [("s".ascii, Node.empty)] ∧
      sourceInside.pathExists throughSource.approvedRoot = false ∧
      ended.2 = .error (.cannotCreate throughSource.approvedRoot .fileExists) ∧
      sourceInside.nodeAt? ["q".ascii, "s".ascii] = some Node.empty ∧
      ended.1.nodeAt? ["q".ascii, "s".ascii] =
        some (.directory [("a".ascii, Node.empty)]) := by
  refine ⟨by cbv, by cbv, by cbv, rfl, by cbv⟩

end Quarantine

end Triage
