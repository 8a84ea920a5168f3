import Triage.Proofs.Batch
import Triage.Proofs.ExitStatus
import Triage.Proofs.Score
import Triage.Proofs.ShippedRules

/-!
What the exit status of a batch tells.

The outcomes of a batch stand in the order of its targets. If no reports are kept, each is that of a
run of its target by itself; if some are, and they change nothing that the scans look at, its report
is. From that and from what the status says of outcomes all else follows (`Scanner.returns_gate`).

Reports are kept in the files that are scanned, and the directories for them are made there. So they
can make the target of a later scan, or change it (`Scanner.kept_reports_disturb`).
-/

namespace Triage

namespace Scanner

variable {s : Scanner} {targets targets' : List ScanTarget} {outcomes outcomes' : List ScanOutcome}

/-! ## The outcomes of a batch -/

theorem map_eq_of_forall₂ {α β γ : Type} {R : α → β → Prop} {f : α → γ} {g : β → γ} {xs : List α}
    {ys : List β} (h : List.Forall₂ R xs ys) (hfg : ∀ x y, R x y → g y = f x) :
    ys.map g = xs.map f := by
  induction h with
  | nil => rfl
  | cons hxy _ ih => rw [List.map_cons, List.map_cons, hfg _ _ hxy, ih]

theorem Returns.targets_eq (h : s.Returns targets outcomes) :
    outcomes.map ScanOutcome.target = targets :=
  (map_eq_of_forall₂ (f := id) h.forall₂ fun _ _ hcomes => hcomes.target_eq).trans (List.map_id _)

theorem Returns.reports_eq (h : s.Returns targets outcomes) (hquiet : s.Undisturbed targets) :
    outcomes.map ScanOutcome.report = targets.map fun t => (s.outcome t).report :=
  map_eq_of_forall₂ h.forall₂ fun _ _ hcomes => hcomes.report_eq hquiet

/-- Reports that are not kept change nothing, so nothing else shows in the outcomes. -/
theorem Returns.eq_of_not_persisted (h : s.Returns targets outcomes)
    (hkeep : s.config.persistReports = false) : outcomes = targets.map s.outcome :=
  (List.map_id outcomes).symm.trans
    (map_eq_of_forall₂ h.forall₂ fun _ _ hcomes => hcomes.eq_of_not_persisted hkeep)

/-- In which order the targets are given does not show in the status. -/
theorem Returns.exitCode_eq_of_perm (h : s.Returns targets outcomes)
    (h' : s.Returns targets' outcomes') (hquiet : s.Undisturbed targets)
    (hperm : targets'.Perm targets) :
    ScanOutcome.exitCode outcomes' = ScanOutcome.exitCode outcomes := by
  have hquiet' : s.Undisturbed targets' := hquiet.mono hperm.subset
  refine ScanOutcome.exitCode_congr fun report => ?_
  rw [h.reports_eq hquiet, h'.reports_eq hquiet']
  exact (hperm.map _).mem_iff

/-- More targets do not make a failure or a finding go away. -/
theorem Returns.exitCode_ne_zero_of_subset (h : s.Returns targets outcomes)
    (h' : s.Returns targets' outcomes') (hquiet : s.Undisturbed targets')
    (hsub : targets ⊆ targets') (hstatus : ScanOutcome.exitCode outcomes ≠ 0) :
    ScanOutcome.exitCode outcomes' ≠ 0 := by
  refine mt (fun hzero => ?_) hstatus
  rw [ScanOutcome.exitCode_eq_zero_iff] at hzero ⊢
  intro o ho
  have hmem : o.report ∈ targets.map fun t => (s.outcome t).report := by
    rw [← h.reports_eq (hquiet.mono hsub)]
    exact List.mem_map_of_mem ho
  have hmem' : o.report ∈ outcomes'.map ScanOutcome.report := by
    rw [h'.reports_eq hquiet]
    exact List.map_subset _ hsub hmem
  obtain ⟨o', ho', hreport⟩ := List.mem_map.mp hmem'
  obtain ⟨r, hr, hclean⟩ := hzero o' ho'
  exact ⟨r, hreport ▸ hr, hclean⟩

/-! ## The gate -/

/-- **The verdict gate.** With any number of workers, in any schedule, running targets comes to an
end, with one outcome for each of them in their order. Each is that of one run of its target on files
that the batch met; if no reports are kept, it is that of a run by itself. The status is 0 only if
every target has a report with the verdict CLEAN, and that of a failure if any has none; if all have
one and none could not be kept, it is that of the highest verdict. As long as the reports that are
kept change nothing that the scans look at, each target has the report of a run by itself, the order
of the targets does not show in the status, and further targets do not turn it into 0. -/
theorem returns_gate (s : Scanner) (targets : List ScanTarget) {workers : Nat}
    (hworkers : 0 < workers) :
    (∀ run : Nat → Batch, run 0 = .start s workers →
      ¬∀ k, Batch.Step s targets (run k) (run (k + 1))) ∧
    (∀ b, Batch.Reaches s targets (.start s workers) b →
      (∃ b', Batch.Step s targets b b') ∨
        b.pool.isOver ∧ ∃ outcomes, b.Answers targets outcomes) ∧
    s.Returns targets (s.runMany targets).2.2 ∧
    ∀ outcomes, s.Returns targets outcomes →
      outcomes.map ScanOutcome.target = targets ∧
      List.Forall₂ (s.CanComeOf targets) targets outcomes ∧
      (s.config.persistReports = false →
        s.Undisturbed targets ∧ outcomes = targets.map s.outcome) ∧
      ScanOutcome.Gate outcomes (ScanOutcome.exitCode outcomes) ∧
      (s.Undisturbed targets →
        outcomes.map ScanOutcome.report = targets.map fun t => (s.outcome t).report) ∧
      ∀ targets' outcomes', s.Returns targets' outcomes' → s.Undisturbed targets' →
        (targets'.Perm targets →
          ScanOutcome.exitCode outcomes' = ScanOutcome.exitCode outcomes) ∧
        (targets ⊆ targets' → ScanOutcome.exitCode outcomes ≠ 0 →
          ScanOutcome.exitCode outcomes' ≠ 0) := by
  refine ⟨fun run _ => Batch.not_forall_step run,
    fun b hreaches => (Batch.sound_of_reaches hreaches).progress hworkers, s.returns_runMany targets,
    fun outcomes h => ⟨h.targets_eq, h.forall₂, fun hkeep => ?_, ScanOutcome.gate_exitCode outcomes,
      h.reports_eq, fun targets' outcomes' h' hquiet => ⟨fun hperm => ?_, fun hsub => ?_⟩⟩⟩
  · exact ⟨undisturbed_of_not_persisted hkeep targets, h.eq_of_not_persisted hkeep⟩
  · exact h.exitCode_eq_of_perm h' (hquiet.mono hperm.symm.subset) hperm
  · exact h.exitCode_ne_zero_of_subset h' hquiet hsub

/-! ## Scans of empty directories -/

/-- A report that a scan answers is one that a draft was finalized to. -/
theorem exists_finalize_of_scan {t : ScanTarget} {r : Report} (h : (s.scan t).2 = .ok r) :
    ∃ d : Draft, d.finalize t.item t.path s.now = .ok r := by
  by_cases hdir : s.machine.files.isDirectory t.path
  · let d := (Draft.empty.applyAll (s.firstOf t)).applyAll
      (PassStep.events (Pass.allSteps s.passes (s.inputOf t)))
    refine ⟨d, ?_⟩
    have hanswer := (congrArg Prod.snd (scan_eq s t hdir)).symm.trans h
    change (answerWith _ (d.finalize t.item t.path s.now)).2 = .ok r at hanswer
    cases hfinalize : d.finalize t.item t.path s.now with
    | error e =>
      rw [hfinalize] at hanswer
      exact nomatch hanswer
    | ok report =>
      rw [hfinalize] at hanswer
      obtain rfl : report = r := Except.ok.inj hanswer
      rfl
  · rw [scan] at h
    simp [hdir] at h

/-- Without findings the verdict is CLEAN. -/
theorem verdict_of_finalize_nil {d : Draft} {item target : Text} {time : Int} {r : Report}
    (h : d.finalize item target time = .ok r) (hnone : r.findings = []) : r.verdict = .clean := by
  obtain ⟨hcompute, hverdict⟩ := Draft.compute_of_finalize h
  rw [Draft.findings_of_finalize h] at hnone
  have hperm := Finding.perm_sort d.findings
  rw [hnone] at hperm
  rw [List.nil_perm.mp hperm] at hcompute
  obtain hscore : 0 = r.score := Except.ok.inj hcompute
  rw [hverdict, ← hscore]
  rfl

/-- An empty directory, the report on which is kept or not. -/
theorem scan_emptyDirectory (keeps : Bool) (reportDir : Text) {fs : FileSystem} {t : ScanTarget}
    (hdir : fs.isDirectory t.path) (hlist : fs.listDirectory t.path = .ok [])
    (hgit : fs.pathExists (Path.join t.path ".git".ascii) = false)
    (hpackage : fs.pathExists (Path.join t.path "package.json".ascii) = false)
    (hsetup : fs.pathExists (Path.join t.path "setup.py".ascii) = false) :
    ∃ r, ((offlineKeeper keeps reportDir fs).scan t).2 = .ok r ∧ r.verdict = .clean ∧
      r.item = t.item := by
  have hfiles : (WalkResult.ofTree fs [] t.path).files = [] := by
    rw [WalkResult.ofTree, hlist]
    simp [Node.entriesOf, WalkResult.sortFiles]
  obtain ⟨r, hscan, hfindings, -⟩ := scan_keeper_of_uncounted keeps reportDir hdir
    (t := t) fun f hf => absurd (hfiles ▸ hf) List.not_mem_nil
  rw [show Provenance.ofHistory fs t.path = [] by
    simp [Provenance.ofHistory, hgit, hpackage, hsetup]] at hfindings
  obtain ⟨d, hd⟩ := exists_finalize_of_scan hscan
  have hverdict := verdict_of_finalize_nil hd hfindings.eq_nil
  obtain ⟨score, verdict, rfl⟩ := Draft.eq_of_finalize hd
  exact ⟨_, hscan, hverdict, rfl⟩

/-! ## Reports that disturb scans -/

/-- Files with an empty directory and an empty file. -/
def plainTarget : FileSystem :=
  ⟨.directory [("w".ascii, .directory []), ("f".ascii, .file ⟨[], 0, false⟩)], []⟩

/-- The directory. -/
def present : ScanTarget := ⟨"w".ascii, "item_w".ascii⟩

/-- A directory that is not there. -/
def missing : ScanTarget := ⟨"t".ascii, "item_t".ascii⟩

theorem scan_present (keeps : Bool) (reportDir : Text) :
    ∃ r, ((offlineKeeper keeps reportDir plainTarget).scan present).2 = .ok r ∧
      r.verdict = .clean ∧ r.item = "item_w".ascii :=
  scan_emptyDirectory keeps reportDir (by cbv) (by cbv) (by cbv) (by cbv) (by cbv)

theorem scan_missing (keeps : Bool) (reportDir : Text) :
    ((offlineKeeper keeps reportDir plainTarget).scan missing).2 =
      .error (.notDirectory "t".ascii) := by
  have hdir : plainTarget.isDirectory "t".ascii = false := by cbv
  rw [scan]
  simp [offlineKeeper, standard, missing, hdir]

theorem returns_gate_missingTarget :
    let s := offlineKeeper false [] plainTarget
    0 < 3 ∧ s.config.persistReports = false ∧
      ∀ outcomes, s.Returns [present, missing] outcomes →
        outcomes.map ScanOutcome.target = [present, missing] ∧
        ScanOutcome.exitCode outcomes = 1 ∧
        ∀ outcomes', s.Returns [missing, present] outcomes' →
          ScanOutcome.exitCode outcomes' = 1 := by
  intro s
  have hkeep : s.config.persistReports = false := rfl
  refine ⟨by decide, hkeep, fun outcomes h => ?_⟩
  obtain ⟨-, -, -, hall⟩ := returns_gate s [present, missing] (by decide : 0 < 3)
  obtain ⟨htargets, -, hquiet, hgate, hreports, hmore⟩ := hall outcomes h
  have hmissing : (s.outcome missing).report = none := by
    rw [(run_eq s missing).2, conclude_report, scan_missing]
    rfl
  have hstatus : ScanOutcome.exitCode outcomes = 1 := by
    rw [(hquiet hkeep).2] at hgate ⊢
    refine hgate.failed ⟨s.outcome missing, ?_, hmissing⟩
    exact List.mem_cons_of_mem _ List.mem_cons_self
  refine ⟨htargets, hstatus, fun outcomes' h' => ?_⟩
  have hquiet' := undisturbed_of_not_persisted hkeep [missing, present]
  exact ((hmore _ outcomes' h' hquiet').1 (List.Perm.swap _ _ _)).trans hstatus

/-- The files after the report on the one that is there could not be kept in `t/../f`. -/
def madeOnTheWay : FileSystem :=
  ⟨.directory [("w".ascii, .directory []), ("f".ascii, .file ⟨[], 0, false⟩),
    ("t".ascii, .directory [])], []⟩

theorem save_present {r : Report} (hitem : r.item = "item_w".ascii) :
    (r.save Formats.none plainTarget "t/../f".ascii).1 = madeOnTheWay ∧
      (r.save Formats.none plainTarget "t/../f".ascii).2.path =
        .error (.cannotCreate "t/../f/item_w".ascii .fileExists) := by
  have hmade : plainTarget.makeDirectories (Path.join "t/../f".ascii "item_w".ascii) =
      (madeOnTheWay, .error .fileExists) := by cbv
  rw [Report.save, hitem]
  simp only [hmade]
  exact ⟨rfl, rfl⟩

theorem save_missing {r : Report} (hitem : r.item = "item_t".ascii) :
    (r.save Formats.none madeOnTheWay "t/../f".ascii).2.path =
      .error (.cannotCreate "t/../f/item_t".ascii .notDirectory) := by
  have hmade : madeOnTheWay.makeDirectories (Path.join "t/../f".ascii "item_t".ascii) =
      (madeOnTheWay, .error .notDirectory) := by cbv
  rw [Report.save, hitem]
  simp only [hmade]
  rfl

/-- Once the report on the other one was to be kept, it is there, and empty. -/
theorem scan_missing_made (keeps : Bool) (reportDir : Text) :
    ∃ r, ((offlineKeeper keeps reportDir madeOnTheWay).scan missing).2 = .ok r ∧
      r.verdict = .clean ∧ r.item = "item_t".ascii :=
  scan_emptyDirectory keeps reportDir (by cbv) (by cbv) (by cbv) (by cbv) (by cbv)

theorem runMany_cons (s : Scanner) (t : ScanTarget) (rest : List ScanTarget) :
    (s.runMany (t :: rest)).2.2 = s.outcome t :: ((s.onFiles (s.run t).1).runMany rest).2.2 := by
  rw [runMany, outcome]

/-- A report that could not be kept is there all the same. -/
theorem outcome_of_unkept {t : ScanTarget} {r : Report} {e : StorageError}
    (hkeep : s.config.persistReports = true) (hscan : (s.scan t).2 = .ok r)
    (hclean : r.verdict = .clean)
    (hsave : (r.save s.formats s.machine.files s.config.reportDir).2.path = .error e) :
    (s.run t).1 = (r.save s.formats s.machine.files s.config.reportDir).1 ∧
      (s.outcome t).IsClean ∧ (s.outcome t).error ≠ none := by
  obtain ⟨hfiles, houtcome⟩ := run_eq s t
  rw [ScanOutcome.IsClean, hfiles, houtcome, hscan, conclude, hkeep]
  simp [hsave, hclean]

/-- A report that is to be kept makes the next target, which is not there without it: so what comes
of a target depends on the others and on their order, and so does the status. That none of the
reports can be kept is an error of which the status does not tell. -/
theorem kept_reports_disturb :
    let s := offlineKeeper true "t/../f".ascii plainTarget
    (s.outcome missing).report = none ∧
    (∃ outcomes, s.Returns [present, missing] outcomes ∧
      (∀ o ∈ outcomes, o.IsClean ∧ o.error ≠ none) ∧ ScanOutcome.exitCode outcomes = 0) ∧
    ∃ outcomes, s.Returns [missing, present] outcomes ∧ ScanOutcome.exitCode outcomes = 1 := by
  intro s
  have hmissing : (s.outcome missing).report = none := by
    rw [(run_eq s missing).2, conclude_report, scan_missing]
    rfl
  refine ⟨hmissing, ⟨_, s.returns_runMany _, ?_⟩, ⟨_, s.returns_runMany _, ?_⟩⟩
  · obtain ⟨r, hscan, hclean, hitem⟩ := scan_present true "t/../f".ascii
    obtain ⟨hmade, hsave⟩ := save_present hitem
    obtain ⟨hfiles, hpresent⟩ := outcome_of_unkept (s := s) rfl hscan hclean hsave
    obtain ⟨r', hscan', hclean', hitem'⟩ := scan_missing_made true "t/../f".ascii
    have hnext := outcome_of_unkept (s := offlineKeeper true "t/../f".ascii madeOnTheWay) rfl
      hscan' hclean' (save_missing hitem')
    have houtcomes : (s.runMany [present, missing]).2.2 =
        [s.outcome present, (s.onFiles madeOnTheWay).outcome missing] := by
      rw [runMany_cons, runMany_cons, hfiles.trans hmade]
      rfl
    have hall : ∀ o ∈ (s.runMany [present, missing]).2.2, o.IsClean ∧ o.error ≠ none := by
      rw [houtcomes, List.forall_mem_cons, List.forall_mem_singleton]
      exact ⟨hpresent, hnext.2⟩
    exact ⟨hall, ScanOutcome.exitCode_eq_zero_iff.mpr fun o ho => (hall o ho).1⟩
  · rw [runMany_cons]
    exact ScanOutcome.exitCode_of_failed ⟨_, List.mem_cons_self, hmissing⟩

end Scanner

end Triage
