import Mathlib.Logic.Function.Defs
import Triage.Commands

/-!
The exit status of a scan of several targets.

The status depends on which reports there are and in no other way on the outcomes
(`ScanOutcome.exitCode_congr`): neither on their order nor on their number. It is 0 if and only if
every target has a report with the verdict CLEAN (`ScanOutcome.exitCode_eq_zero_iff`). Beyond that
it is not monotone in the verdicts: the highest one and a failure have the same status.
-/

namespace Triage

/-! ## The highest verdict -/

namespace Verdict

/-- The highest of the verdicts; CLEAN if there are none. -/
structure IsHighest (v : Verdict) (vs : List Verdict) : Prop where
  attained : v = .clean ∨ v ∈ vs
  bound : ∀ w ∈ vs, w.rank ≤ v.rank

theorem rank_injective : Function.Injective rank := by
  intro v w h
  cases v <;> cases w <;> first | rfl | contradiction

theorem rank_worse (v w : Verdict) : (worse v w).rank = max v.rank w.rank := by
  rw [worse]
  split <;> omega

theorem worse_eq (v w : Verdict) : worse v w = v ∨ worse v w = w := by
  rw [worse]
  split
  · exact Or.inr rfl
  · exact Or.inl rfl

theorem foldl_worse_mem (vs : List Verdict) (v : Verdict) :
    vs.foldl worse v = v ∨ vs.foldl worse v ∈ vs := by
  induction vs generalizing v with
  | nil => exact Or.inl rfl
  | cons w vs ih =>
    rw [List.foldl_cons]
    rcases ih (worse v w) with heq | hmem
    · rw [heq]
      refine (worse_eq v w).imp_right fun h => ?_
      rw [h]
      exact List.mem_cons_self
    · exact Or.inr (List.mem_cons_of_mem w hmem)

theorem rank_le_foldl_worse (vs : List Verdict) (v : Verdict) :
    v.rank ≤ (vs.foldl worse v).rank ∧ ∀ w ∈ vs, w.rank ≤ (vs.foldl worse v).rank := by
  induction vs generalizing v with
  | nil => exact ⟨Nat.le_refl _, fun w hw => absurd hw List.not_mem_nil⟩
  | cons u vs ih =>
    obtain ⟨hstart, hrest⟩ := ih (worse v u)
    rw [rank_worse] at hstart
    rw [List.foldl_cons, List.forall_mem_cons]
    exact ⟨Nat.le_trans (Nat.le_max_left _ _) hstart, Nat.le_trans (Nat.le_max_right _ _) hstart, hrest⟩

theorem isHighest_foldl (vs : List Verdict) : (vs.foldl worse .clean).IsHighest vs :=
  ⟨foldl_worse_mem vs .clean, (rank_le_foldl_worse vs .clean).2⟩

theorem IsHighest.eq {v w : Verdict} {vs ws : List Verdict} (hv : v.IsHighest vs)
    (hw : w.IsHighest ws) (h : ∀ u, u ∈ vs ↔ u ∈ ws) : v = w := by
  have hle : ∀ {v w : Verdict} {vs ws : List Verdict}, v.IsHighest vs → w.IsHighest ws →
      (∀ u, u ∈ vs ↔ u ∈ ws) → v.rank ≤ w.rank := by
    intro v w vs ws hv hw h
    rcases hv.attained with rfl | hmem
    · exact Nat.zero_le _
    · exact hw.bound v ((h v).mp hmem)
  exact rank_injective (Nat.le_antisymm (hle hv hw h) (hle hw hv fun u => (h u).symm))

theorem exitCode_eq_zero_iff (v : Verdict) : v.exitCode = 0 ↔ v = .clean := by
  cases v <;> decide

/-- The highest verdict is CLEAN if and only if all are. -/
theorem IsHighest.eq_clean_iff {v : Verdict} {vs : List Verdict} (h : v.IsHighest vs) :
    v = .clean ↔ ∀ w ∈ vs, w = .clean := by
  constructor
  · rintro rfl w hw
    exact rank_injective (Nat.le_zero.mp (h.bound w hw))
  · intro hall
    exact h.attained.elim id (hall v)

end Verdict

/-! ## The status of outcomes -/

namespace ScanOutcome

variable {os os' : List ScanOutcome}

/-- The verdicts of the reports. -/
def verdicts (os : List ScanOutcome) : List Verdict :=
  os.filterMap fun o => o.report.map Report.verdict

/-- The target has produced a report with the verdict CLEAN. -/
def IsClean (o : ScanOutcome) : Prop := ∃ r, o.report = some r ∧ r.verdict = .clean

theorem isHighest_worst (os : List ScanOutcome) : (worst os).IsHighest (verdicts os) :=
  Verdict.isHighest_foldl _

theorem exitCode_of_failed (h : ∃ o ∈ os, o.report = none) : exitCode os = failureExitCode := by
  obtain ⟨o, ho, hreport⟩ := h
  rw [exitCode, if_pos]
  exact List.any_eq_true.mpr ⟨o, ho, by rw [hreport]; rfl⟩

theorem exitCode_of_reports (h : ∀ o ∈ os, o.report ≠ none) : exitCode os = (worst os).exitCode := by
  rw [exitCode, if_neg]
  rw [List.any_eq_true]
  rintro ⟨o, ho, hreport⟩
  exact h o ho (Option.isNone_iff_eq_none.mp hreport)

theorem mem_verdicts {v : Verdict} :
    v ∈ verdicts os ↔ ∃ o ∈ os, ∃ r, o.report = some r ∧ r.verdict = v := by
  simp only [verdicts, List.mem_filterMap, Option.map_eq_some_iff]

theorem exitCode_eq_zero_iff : exitCode os = 0 ↔ ∀ o ∈ os, o.IsClean := by
  by_cases hfailed : ∃ o ∈ os, o.report = none
  · rw [exitCode_of_failed hfailed]
    obtain ⟨o, ho, hreport⟩ := hfailed
    refine ⟨fun h => absurd h (by decide), fun h => ?_⟩
    obtain ⟨r, hr, -⟩ := h o ho
    rw [hreport] at hr
    contradiction
  · have hreports : ∀ o ∈ os, o.report ≠ none := fun o ho hnone => hfailed ⟨o, ho, hnone⟩
    rw [exitCode_of_reports hreports, Verdict.exitCode_eq_zero_iff,
      (isHighest_worst os).eq_clean_iff]
    constructor
    · intro h o ho
      obtain ⟨r, hr⟩ := Option.ne_none_iff_exists'.mp (hreports o ho)
      exact ⟨r, hr, h r.verdict (mem_verdicts.mpr ⟨o, ho, r, hr, rfl⟩)⟩
    · intro h v hv
      obtain ⟨o, ho, r, hr, rfl⟩ := mem_verdicts.mp hv
      obtain ⟨r', hr', hclean⟩ := h o ho
      obtain rfl := Option.some.inj (hr.symm.trans hr')
      exact hclean

/-- The status depends on which reports there are. -/
theorem exitCode_congr (h : ∀ report, report ∈ os.map ScanOutcome.report ↔
    report ∈ os'.map ScanOutcome.report) : exitCode os = exitCode os' := by
  have hfailed : ∀ os : List ScanOutcome, (∃ o ∈ os, o.report = none) ↔
      none ∈ os.map ScanOutcome.report := fun os => List.mem_map.symm
  by_cases hnone : none ∈ os.map ScanOutcome.report
  · rw [exitCode_of_failed ((hfailed os).mpr hnone),
      exitCode_of_failed ((hfailed os').mpr ((h none).mp hnone))]
  · -- If no scan has failed, the verdicts of the reports decide, as a set.
    have hreports : ∀ os : List ScanOutcome, none ∉ os.map ScanOutcome.report →
        ∀ o ∈ os, o.report ≠ none := fun os hos o ho hreport => hos ((hfailed os).mp ⟨o, ho, hreport⟩)
    have hmem : ∀ os : List ScanOutcome, ∀ v, v ∈ verdicts os ↔
        ∃ r, some r ∈ os.map ScanOutcome.report ∧ r.verdict = v := by
      intro os v
      rw [mem_verdicts]
      constructor
      · rintro ⟨o, ho, r, hr, hv⟩
        exact ⟨r, List.mem_map.mpr ⟨o, ho, hr⟩, hv⟩
      · rintro ⟨r, hr, hv⟩
        obtain ⟨o, ho, hreport⟩ := List.mem_map.mp hr
        exact ⟨o, ho, r, hreport, hv⟩
    rw [exitCode_of_reports (hreports os hnone),
      exitCode_of_reports (hreports os' fun h' => hnone ((h none).mpr h'))]
    refine congrArg Verdict.exitCode ((isHighest_worst os).eq (isHighest_worst os') fun v => ?_)
    rw [hmem, hmem]
    exact exists_congr fun r => and_congr_left fun _ => h (some r)

/-- What an exit status tells of outcomes, if keeping a report may fail as well. -/
structure Gate (os : List ScanOutcome) (status : Nat) : Prop where
  clean : status = 0 → ∀ o ∈ os, o.IsClean
  failed : (∃ o ∈ os, o.report = none) → status = failureExitCode
  /-- If every target has a report, and none of them could not be kept. -/
  graded : (∀ o ∈ os, o.report ≠ none ∧ o.error = none) →
    (∃ v : Verdict, v.IsHighest (verdicts os) ∧ status = v.exitCode) ∧
    (status = 0 ↔ ∀ o ∈ os, o.IsClean)

theorem gate_exitCode (os : List ScanOutcome) : Gate os (exitCode os) where
  clean := exitCode_eq_zero_iff.mp
  failed := exitCode_of_failed
  graded h := ⟨⟨worst os, isHighest_worst os, exitCode_of_reports fun o ho => (h o ho).1⟩,
    exitCode_eq_zero_iff⟩

end ScanOutcome

/-! ## The status of the command -/

/-- An action that comes after one which has not failed. -/
theorem Action.run_bind_ok {α β : Type} {first : Action α} {next : α → Action β}
    {session session' : Session} {a : α} (h : first.run.run session = (.ok a, session')) :
    (first >>= next).run.run session = (next a).run.run session' := by
  rw [ExceptT.run_bind, StateT.run_bind, h]
  rfl

namespace Commands

/-- Whether there is a report or not, it is shown without a failure. -/
theorem showOutcome_ok (c : Config) (o : ScanOutcome) (session : Session) :
    ∃ session', (showOutcome c o).run.run session = (.ok (), session') := by
  rw [showOutcome]
  cases o.report with
  | none => exact ⟨_, rfl⟩
  | some report =>
    by_cases hsaved : (!o.saved.isEmpty) = true
    · simp only [hsaved]
      exact ⟨_, rfl⟩
    · simp only [hsaved]
      exact ⟨_, rfl⟩

theorem showOutcomes_ok (c : Config) (outcomes : List ScanOutcome) (session : Session) :
    ∃ session', (outcomes.forM (showOutcome c)).run.run session = (.ok (), session') := by
  induction outcomes generalizing session with
  | nil => exact ⟨session, rfl⟩
  | cons o rest ih =>
    obtain ⟨session', hshow⟩ := showOutcome_ok c o session
    obtain ⟨session'', hrest⟩ := ih session'
    exact ⟨session'', (Action.run_bind_ok hshow).trans hrest⟩

/-- The command answers the status of the outcomes. -/
theorem scanTargets_status (c : Config) (targets : List ScanTarget) (session : Session) :
    let s := Scanner.standard session.machine c session.programs session.formats session.answer
      session.now
    ∃ session', (scanTargets c targets).run.run session =
      (.ok (ScanOutcome.exitCode (s.runMany targets).2.2), session') := by
  intro s
  have hscanner : (scanner c).run.run session = (.ok s, session) := rfl
  rw [scanTargets, Action.run_bind_ok hscanner]
  generalize s.runMany targets = answer
  let logged := (session.withFiles answer.1).logAll answer.2.1
  obtain ⟨session', hshow⟩ := showOutcomes_ok c answer.2.2 logged
  have hfiles : (Action.setFiles answer.1).run.run session = (.ok (), session.withFiles answer.1) :=
    rfl
  have hlog : (modify (Session.logAll answer.2.1) : Action Unit).run.run
      (session.withFiles answer.1) = (.ok (), logged) := rfl
  refine ⟨session', ?_⟩
  rw [Action.run_bind_ok hfiles, Action.run_bind_ok hlog, Action.run_bind_ok hshow]
  rfl

end Commands

end Triage
