import Mathlib
import Triage.Proofs.Isolation
import Triage.Proofs.Score
import Triage.Proofs.Selection
import Triage.Scan
import Triage.Shell

/-!
Which of the files that were passed over a report names.

The pass of the built-in rules notes every file that it could not load. The pass of dependencies
passes over such files without a word, and relies on the other pass. So a report names the files
that were passed over if lines are searched at all (`ScanInput.searchesLines`); if not, its notes
are as if there were no such files.
-/

namespace Triage

/-! ## Files that are passed over -/

namespace ScanInput

/-- Whether the built-in rules look at lines: their pass is run with a phase of lines selected. -/
def searchesLines (input : ScanInput) : Bool :=
  input.config.runs PhasesPass.name &&
    Detection.linePhases.any (Phase.selected input.config.phases)

/-- Whether the pass of dependencies is run and the file is of interest to it. -/
def analyses (input : ScanInput) (f : FileEntry) : Bool :=
  input.config.runs DependenciesPass.name &&
    (FileScope.manifest.covers f.path || DependenciesPass.isRuled f.path)

/-- A file goes unscanned, for the reason given, that a pass would have looked at. -/
structure PassesOver (input : ScanInput) (f : FileEntry) (reason : SkipReason) : Prop where
  listed : f ∈ input.entries
  eligible : f.eligible
  skipped : Content.load input.machine.files input.config.maxFileBytes f = .error reason
  wanted : input.searchesLines ∨ input.analyses f

/-- Whether a file is eligible although it cannot be loaded. -/
def isUnloadable (input : ScanInput) (f : FileEntry) : Bool :=
  f.eligible && !(Content.load input.machine.files input.config.maxFileBytes f).isOk

/-- The input without the files that are eligible but cannot be loaded. -/
def loadable (input : ScanInput) : ScanInput :=
  { input with entries := input.entries.filter fun f => !input.isUnloadable f }

end ScanInput

/-! ## Notes in a run -/

namespace Pass

/-- The notes that a pass writes. -/
def notes (input : ScanInput) (p : Pass) : List Note :=
  (PassStep.events (p.row input)).filterMap ReportEvent.note?

variable {passes : List Pass} {input : ScanInput} {order : List Turn}

/-- A run leaves the notes of all passes, besides those that were there before. -/
theorem IsRun.notes_perm (h : IsRun passes input order) (first : List ReportEvent) :
    (draftOf first order).notes.Perm
      ((Draft.ofEvents first).notes ++ passes.flatMap (notes input)) := by
  have hrows : (passes.flatMap fun p => PassStep.events (p.row input)).filterMap
      ReportEvent.note? = passes.flatMap (notes input) := List.filterMap_flatMap ..
  rw [draftOf, Draft.ofEvents, Draft.applyAll, List.foldl_append, ← hrows]
  refine (List.Perm.of_eq (Draft.notes_applyAll ..)).trans (.append_left _ ?_)
  exact h.events_perm.filterMap _

/-- The events of a pass that does not fail. -/
theorem events_of_run {p : Pass} {steps : List PassStep} (h : p.run input = .ofSteps steps) :
    PassStep.events (p.row input) =
      if input.config.runs p.name then
        .started p.name input.now :: PassStep.events steps ++ [.ended p.name input.now]
      else [.status p.name .skipped "disabled by configuration".ascii] := by
  unfold row
  split
  · rw [Pass.steps, h]
    simp [PassRun.ofSteps, PassStep.events, PassStep.event?]
  · rfl

theorem notes_of_run {p : Pass} {steps : List PassStep} (h : p.run input = .ofSteps steps) :
    p.notes input = if input.config.runs p.name then
      (PassStep.events steps).filterMap ReportEvent.note? else [] := by
  rw [notes, events_of_run h]
  split
  · simp [ReportEvent.note?, List.filterMap_cons]
  · rfl

end Pass

/-! ## The pass of the built-in rules -/

namespace Detection

variable (fs : FileSystem) (phases : List Phase) (limit : Nat) (files : List FileEntry)

/-- The note on a file that could not be scanned. -/
def notesOn (f : FileEntry) : List Text :=
  match scanFile fs phases limit f with
  | .ok _ => []
  | .error reason => [skipNote f reason]

theorem notes_scanFiles :
    (scanFiles fs phases limit files).notes =
      (files.filter FileEntry.eligible).flatMap (notesOn fs phases limit) := by
  refine collected_scanFiles fs phases limit files Detection.notes _ fun d f => ?_
  unfold notesOn
  cases scanFile fs phases limit f with
  | ok found => exact (List.append_nil _).symm
  | error reason => rfl

theorem notes_run (root : Text) :
    (run fs phases limit root files).notes =
      if linePhases.any (Phase.selected phases) then
        (files.filter FileEntry.eligible).flatMap (notesOn fs phases limit) else [] := by
  rw [← notes_scanFiles]
  show (if linePhases.any (Phase.selected phases) then scanFiles fs phases limit files
    else empty).notes = _
  split <;> rfl

end Detection

variable {input : ScanInput}

/-- A file that cannot be loaded is noted if lines are searched. -/
theorem PhasesPass.mem_notes (hsearch : input.searchesLines) {f : FileEntry} {reason : SkipReason}
    (h : input.PassesOver f reason) :
    ⟨name, Detection.skipNote f reason⟩ ∈ phasesPass.notes input := by
  obtain ⟨hruns, hline⟩ := Bool.and_eq_true_iff.mp hsearch
  have hnote : Detection.skipNote f reason ∈ (Detection.run input.machine.files
      input.config.phases input.config.maxFileBytes input.root input.entries).notes := by
    rw [Detection.notes_run, if_pos hline]
    refine List.mem_flatMap.mpr ⟨f, List.mem_filter.mpr ⟨h.listed, h.eligible⟩, ?_⟩
    rw [Detection.notesOn, Detection.scanFile, h.skipped]
    exact List.mem_cons_self
  have hruns : input.config.runs phasesPass.name := hruns
  rw [Pass.notes_of_run rfl, if_pos hruns]
  refine List.mem_filterMap.mpr ⟨.note name _, List.mem_filterMap.mpr ⟨.note name _, ?_, rfl⟩, rfl⟩
  exact List.mem_append_left _ (List.mem_map_of_mem hnote)

/-- Where no lines are searched there are no notes. -/
theorem PhasesPass.notes_eq_nil (hsearch : ¬input.searchesLines) : phasesPass.notes input = [] := by
  rw [Pass.notes_of_run rfl]
  split
  · rename_i hruns
    have hline : ¬Detection.linePhases.any (Phase.selected input.config.phases) :=
      fun hline => hsearch (Bool.and_eq_true_iff.mpr ⟨hruns, hline⟩)
    rw [steps, Detection.notes_run, if_neg hline]
    rfl
  · rfl

/-! ## The other passes -/

theorem ScanInput.exists_load_error {f : FileEntry} (h : input.isUnloadable f) :
    ∃ reason, Content.load input.machine.files input.config.maxFileBytes f = .error reason := by
  unfold isUnloadable at h
  cases hload : Content.load input.machine.files input.config.maxFileBytes f with
  | ok text =>
    rw [hload] at h
    exact nomatch (Bool.and_eq_true_iff.mp h).2
  | error reason => exact ⟨reason, rfl⟩

/-- The pass of dependencies passes over a file that cannot be loaded as over one that is of no
interest. -/
theorem DependenciesPass.addFile_of_isUnloadable {f : FileEntry} (h : input.isUnloadable f)
    (p : Progress) : addFile input.machine.files input.formats input.config p f = p := by
  obtain ⟨reason, hload⟩ := ScanInput.exists_load_error h
  unfold addFile
  rw [hload]
  split <;> rfl

theorem DependenciesPass.run_loadable :
    dependenciesPass.run input.loadable = dependenciesPass.run input := by
  have hgather : progress input.loadable = progress input := by
    show (input.entries.filter fun f => !input.isUnloadable f).foldl
      (addFile input.machine.files input.formats input.config) start = _
    rw [List.foldl_filter]
    refine List.foldl_ext _ _ _ fun p f _ => ?_
    cases hskip : input.isUnloadable f with
    | true => exact (addFile_of_isUnloadable hskip p).symm
    | false => rfl
  exact congrArg (fun p => PassRun.ofSteps (steps p)) hgather

/-- Elements from which nothing comes may be left out. -/
theorem flatMap_filter_of_nil {α β : Type} {keep : α → Bool} {g : α → List β} {l : List α}
    (h : ∀ a ∈ l, ¬keep a → g a = []) : (l.filter keep).flatMap g = l.flatMap g := by
  induction l with
  | nil => rfl
  | cons a l ih =>
    have ih := ih fun b hb => h b (.tail _ hb)
    by_cases ha : keep a
    · rw [List.filter_cons_of_pos ha, List.flatMap_cons, List.flatMap_cons, ih]
    · rw [List.filter_cons_of_neg ha, List.flatMap_cons, h a List.mem_cons_self ha, ih,
        List.nil_append]

theorem CloudPass.signatureFindings_loadable (rules : List LineRule) :
    signatureFindings input.loadable rules = signatureFindings input rules := by
  have heligible : input.loadable.entries.filter FileEntry.eligible =
      (input.entries.filter FileEntry.eligible).filter fun f => !input.isUnloadable f := by
    show (input.entries.filter _).filter _ = _
    rw [List.filter_filter, List.filter_filter]
    simp only [Bool.and_comm]
  unfold signatureFindings
  rw [heligible]
  refine flatMap_filter_of_nil fun f _ hskip => ?_
  obtain ⟨reason, hload⟩ := ScanInput.exists_load_error (by simpa using hskip)
  simp only [ScanInput.loadable, hload]

theorem CloudPass.run_loadable (answer : Request → Reply) :
    (cloudPass answer).run input.loadable = (cloudPass answer).run input := by
  have hanswered (threat : Option Threat) (signatures : List Signature) :
      answeredSteps input.loadable threat signatures = answeredSteps input threat signatures := by
    simp only [answeredSteps, signatureFindings_loadable]
  have hask (token : Token) : ask answer input.loadable token = ask answer input token := by
    simp only [ask, hanswered]
    rfl
  show PassRun.ofSteps (steps answer input.loadable) = PassRun.ofSteps (steps answer input)
  simp only [steps, hask]
  rfl

/-- A pass that does the same without the files that cannot be loaded writes the same notes. -/
theorem Pass.notes_loadable_of_run {p : Pass} (h : p.run input.loadable = p.run input) :
    p.notes input.loadable = p.notes input := by
  have hsteps : p.steps input.loadable = p.steps input := by
    rw [steps, steps, h]
    rfl
  have hrow : p.row input.loadable = p.row input := by
    show (if input.config.runs p.name then p.steps input.loadable else p.skipSteps) = _
    rw [hsteps]
    rfl
  rw [notes, hrow, notes]

/-! ## Notes on files that were passed over -/

namespace Scanner

/-- Where no lines are searched, the passes write the same notes without the files that cannot be
loaded. -/
theorem notes_loadable (hsearch : ¬input.searchesLines) (programs : Programs)
    (answer : Request → Reply) {p : Pass}
    (hp : p ∈ standardPasses input.config programs input.formats answer) :
    p.notes input.loadable = p.notes input := by
  simp only [standardPasses, List.mem_cons, List.not_mem_nil, or_false] at hp
  rcases hp with rfl | rfl | rfl | rfl
  · have hsearch' : ¬input.loadable.searchesLines := hsearch
    rw [PhasesPass.notes_eq_nil hsearch, PhasesPass.notes_eq_nil hsearch']
  · exact Pass.notes_loadable_of_run rfl
  · exact Pass.notes_loadable_of_run DependenciesPass.run_loadable
  · exact Pass.notes_loadable_of_run (CloudPass.run_loadable answer)

/-- **No file is passed over in silence, if lines are searched.** Then the report has a note on
every file that a pass would have looked at but could not load, for whatever reason and whichever
pass it is. Otherwise nothing in the notes tells of such files: they are the same if the files that
cannot be loaded are left out. -/
theorem passedOver_noted (programs : Programs) (answer : Request → Reply) {order : List Turn}
    (h : Pass.IsRun (standardPasses input.config programs input.formats answer) input order)
    {first : List ReportEvent} {item target : Text} {time : Int} {r : Report}
    (hr : (Pass.draftOf first order).finalize item target time = .ok r) :
    (input.searchesLines → ∀ f reason, input.PassesOver f reason →
      ⟨PhasesPass.name, Detection.skipNote f reason⟩ ∈ r.notes) ∧
    (¬input.searchesLines → ∀ order' r',
      Pass.IsRun (standardPasses input.config programs input.formats answer) input.loadable order' →
      (Pass.draftOf first order').finalize item target time = .ok r' → r.notes = r'.notes) := by
  refine ⟨fun hsearch f reason hover => ?_, fun hsearch order' r' h' hr' => ?_⟩
  · rw [Draft.notes_of_finalize hr]
    refine (List.mergeSort_perm _ _).mem_iff.mpr ((h.notes_perm first).mem_iff.mpr ?_)
    refine List.mem_append_right _ (List.mem_flatMap.mpr ⟨phasesPass, List.mem_cons_self, ?_⟩)
    exact PhasesPass.mem_notes hsearch hover
  · rw [Draft.notes_of_finalize hr, Draft.notes_of_finalize hr']
    refine Draft.sortNotes_congr ((h.notes_perm first).trans (.trans ?_ (h'.notes_perm first).symm))
    refine List.Perm.of_eq (congrArg _ (List.flatMap_congr fun p hp => ?_))
    exact (notes_loadable hsearch programs answer hp).symm

/-- A manifest with a zero byte in it. -/
def zeroByteManifest : FileEntry := ⟨"requirements.txt".ascii, "/requirements.txt".ascii, 2, true⟩

/-- A scan of that manifest without one of the passes. -/
def zeroByteInput (disabled : Text) : ScanInput where
  machine := ⟨⟨.directory [("requirements.txt".ascii, .file ⟨"a".ascii, 1, false⟩)], []⟩, []⟩
  config :=
    { disabled := [disabled], phases := [.credentials], offline := true, externalTools := [] }
  formats := .none
  root := "/".ascii
  entries := [zeroByteManifest]
  fingerprint := []
  now := 0

theorem load_zeroByteManifest (disabled : Text) :
    Content.load (zeroByteInput disabled).machine.files
      (zeroByteInput disabled).config.maxFileBytes zeroByteManifest = .error .binary := by
  have hread : (zeroByteInput disabled).machine.files.readAll? zeroByteManifest.fullPath =
      some ("a".ascii ++ [0]) := by
    cbv
  rw [Content.load, hread]
  rfl

/-- The built-in passes, with no one to ask. -/
def zeroBytePasses (disabled : Text) : List Pass :=
  standardPasses (zeroByteInput disabled).config Shell.programs (zeroByteInput disabled).formats
    fun _ => .error Exchange.noReply

theorem run_phases_zeroByteInput (disabled : Text) :
    phasesPass.run (zeroByteInput disabled) =
      .ofSteps (PhasesPass.steps ⟨[], [Detection.skipNote zeroByteManifest .binary], 0⟩) := by
  let input := zeroByteInput disabled
  let scanned := Detection.scanFiles input.machine.files input.config.phases
    input.config.maxFileBytes input.entries
  have hscanned : scanned = ⟨[], [Detection.skipNote zeroByteManifest .binary], 0⟩ := by
    show Detection.empty.add zeroByteManifest (Detection.scanFile input.machine.files
      input.config.phases input.config.maxFileBytes zeroByteManifest) = _
    rw [Detection.scanFile, load_zeroByteManifest]
    rfl
  show PassRun.ofSteps (PhasesPass.steps
    { scanned with findings := Finding.sort ([] ++ scanned.findings) }) = _
  rw [hscanned]
  have hsort : Finding.sort ([] ++ []) = [] := List.mergeSort_nil
  simp only [hsort]

theorem run_dependencies_zeroByteInput (disabled : Text) :
    dependenciesPass.run (zeroByteInput disabled) =
      .ofSteps (DependenciesPass.steps DependenciesPass.start) := by
  have hunloadable : (zeroByteInput disabled).isUnloadable zeroByteManifest := by
    rw [ScanInput.isUnloadable, load_zeroByteManifest]
    rfl
  exact congrArg (fun p => PassRun.ofSteps (DependenciesPass.steps p))
    (DependenciesPass.addFile_of_isUnloadable hunloadable _)

/-- Nothing is found in a file that cannot be loaded. -/
theorem findings_zeroByteInput (disabled : Text) {p : Pass} (hp : p ∈ zeroBytePasses disabled) :
    (PassStep.events (p.row (zeroByteInput disabled))).flatMap ReportEvent.findings = [] := by
  simp only [zeroBytePasses, standardPasses, List.mem_cons, List.not_mem_nil, or_false] at hp
  rcases hp with rfl | rfl | rfl | rfl
  · rw [Pass.events_of_run (run_phases_zeroByteInput disabled)]
    split <;> rfl
  · rw [Pass.events_of_run rfl]
    split <;> rfl
  · rw [Pass.events_of_run (run_dependencies_zeroByteInput disabled)]
    split <;> rfl
  · rw [Pass.events_of_run rfl]
    split <;> rfl

/-- A report arises, with the notes of the passes. -/
theorem exists_report_zeroByteInput (disabled : Text) :
    ∃ order r, Pass.IsRun (zeroBytePasses disabled) (zeroByteInput disabled) order ∧
      (Pass.draftOf [] order).finalize [] [] 0 = .ok r ∧
      r.notes.Perm ((zeroBytePasses disabled).flatMap (Pass.notes (zeroByteInput disabled))) := by
  obtain ⟨order, hrun, -⟩ := Pass.exists_isRun (zeroBytePasses disabled) (zeroByteInput disabled)
  have hfindings : (Pass.draftOf [] order).findings = [] := by
    rw [Pass.findings_draftOf]
    refine List.flatMap_eq_nil_iff.mpr fun e he => ?_
    obtain ⟨p, hp, he⟩ := List.mem_flatMap.mp (hrun.events_perm.mem_iff.mp he)
    exact List.flatMap_eq_nil_iff.mp (findings_zeroByteInput disabled hp) e he
  have hsort : Finding.sort (Pass.draftOf [] order).findings = [] := by
    rw [hfindings]
    exact List.mergeSort_nil
  have hscore : Score.compute (Finding.sort (Pass.draftOf [] order).findings) = .ok 0 := by
    rw [hsort]
    rfl
  obtain ⟨r, hr, -⟩ := Draft.finalize_of_compute hscore [] [] 0
  refine ⟨order, r, hrun, hr, ?_⟩
  rw [Draft.notes_of_finalize hr]
  exact (List.mergeSort_perm _ _).trans (hrun.notes_perm [])

theorem passedOver_noted_zeroByte :
    let input := zeroByteInput "dependencies".ascii
    input.searchesLines ∧ input.PassesOver zeroByteManifest .binary ∧
      ∃ order r, Pass.IsRun (zeroBytePasses "dependencies".ascii) input order ∧
        (Pass.draftOf [] order).finalize [] [] 0 = .ok r ∧
        ⟨"phases".ascii, "skipped requirements.txt: binary content".ascii⟩ ∈ r.notes := by
  intro input
  have hsearch : input.searchesLines := by decide
  have hover : input.PassesOver zeroByteManifest .binary :=
    ⟨List.mem_cons_self, rfl, load_zeroByteManifest _, Or.inl hsearch⟩
  obtain ⟨order, r, hrun, hr, -⟩ := exists_report_zeroByteInput "dependencies".ascii
  refine ⟨hsearch, hover, order, r, hrun, hr, ?_⟩
  exact (passedOver_noted Shell.programs _ hrun hr).1 hsearch _ _ hover

/-- Without the pass of the built-in rules, the report does not tell that a manifest was passed
over. -/
theorem zeroByte_unnoted :
    let input := zeroByteInput "phases".ascii
    input.PassesOver zeroByteManifest .binary ∧
      ∃ order r, Pass.IsRun (zeroBytePasses "phases".ascii) input order ∧
        (Pass.draftOf [] order).finalize [] [] 0 = .ok r ∧ r.notes = [] := by
  intro input
  have hanalyses : input.analyses zeroByteManifest := by
    have hcovers : FileScope.manifest.covers zeroByteManifest.path := by decide
    rw [ScanInput.analyses, hcovers, Bool.true_or]
    decide
  obtain ⟨order, r, hrun, hr, hnotes⟩ := exists_report_zeroByteInput "phases".ascii
  refine ⟨⟨List.mem_cons_self, rfl, load_zeroByteManifest _, Or.inr hanalyses⟩, order, r, hrun, hr,
    ?_⟩
  have hnone : ∀ p ∈ zeroBytePasses "phases".ascii, p.notes input = [] := by
    intro p hp
    simp only [zeroBytePasses, standardPasses, List.mem_cons, List.not_mem_nil, or_false] at hp
    rcases hp with rfl | rfl | rfl | rfl
    · exact PhasesPass.notes_eq_nil (by decide)
    · rw [Pass.notes_of_run rfl]
      rfl
    · rw [Pass.notes_of_run (run_dependencies_zeroByteInput _)]
      rfl
    · rw [Pass.notes_of_run rfl]
      rfl
  exact (hnotes.trans (List.Perm.of_eq (List.flatMap_eq_nil_iff.mpr hnone))).eq_nil

end Scanner

end Triage
