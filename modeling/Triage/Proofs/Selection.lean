import Mathlib.Data.List.Basic
import Triage.Pass.Dependencies
import Triage.Pass.Phases
import Triage.Proofs.Order

/-!
Selecting phases leaves out findings, and does nothing else to the rest.

The selection is asked in several places: before a rule is searched for, before all line rules,
before the checks of provenance, of capabilities and of pinned versions. Each of them keeps what a
filter by phase keeps (`Finding.only`), and sorting does not mind the filter; so a run with a
selection finds what that filter leaves of a run without one.
-/

namespace Triage

/-! ## Findings of some phases -/

namespace Finding

/-- The findings in the selected phases. -/
def only (phases : List Phase) (findings : List Finding) : List Finding :=
  findings.filter fun f => Phase.selected phases f.phase

variable (phases : List Phase)

@[simp] theorem only_append (l l' : List Finding) :
    only phases (l ++ l') = only phases l ++ only phases l' := List.filter_append ..

theorem only_flatMap {α : Type} (l : List α) (f : α → List Finding) :
    only phases (l.flatMap f) = l.flatMap fun a => only phases (f a) := by
  rw [only, List.filter_flatMap]
  rfl

/-- Findings of one phase are left out together. -/
theorem only_eq_ite {phase : Phase} {l : List Finding} (h : ∀ f ∈ l, f.phase = phase) :
    only phases l = if Phase.selected phases phase then l else [] := by
  split
  · rename_i hselected
    exact List.filter_eq_self.mpr fun f hf => by rwa [h f hf]
  · rename_i hselected
    exact List.filter_eq_nil_iff.mpr fun f hf => by rwa [h f hf]

theorem only_sort (l : List Finding) : only phases (sort l) = sort (only phases l) :=
  precedes_keyed.filter_mergeSort_comm _ l

/-- The empty selection leaves nothing out; any other one leaves what it names. -/
theorem only_eq_filter {phases : List Phase} (h : phases ≠ []) (l : List Finding) :
    only phases l = l.filter fun f => phases.contains f.phase := by
  have hempty : phases.isEmpty = false := List.isEmpty_eq_false_iff.mpr h
  simp only [only, Phase.selected, hempty, Bool.false_or]

end Finding

open Finding (only)

/-! ## Line rules -/

namespace LineRule

theorem phase_of_findIn {r : LineRule} {path line : Text} {number : Nat} {f : Finding}
    (h : r.findIn path number line = some f) : f.phase = r.phase := by
  obtain ⟨hit, -, rfl⟩ := Option.map_eq_some_iff.mp h
  rfl

theorem applicable_eq_filter (rules : List LineRule) (phases : List Phase) (path : Text) :
    applicable rules phases path =
      (applicable rules [] path).filter fun r => Phase.selected phases r.phase := by
  rw [applicable, applicable, List.filter_filter]
  rfl

theorem findAll_eq (rules : List LineRule) (phases : List Phase) (path contents : Text) :
    findAll rules phases path contents =
      ((Text.lines contents).zipIdx 1).flatMap fun (line, number) =>
        (applicable rules phases path).filterMap fun r => r.findIn path number line := by
  rw [findAll]
  split
  · rename_i hnone
    rw [List.isEmpty_iff.mp hnone]
    simp
  · rfl

/-- Leaving out rules leaves out their findings. -/
theorem findAll_eq_only (rules : List LineRule) (phases : List Phase) (path contents : Text) :
    findAll rules phases path contents = only phases (findAll rules [] path contents) := by
  rw [findAll_eq, findAll_eq, Finding.only_flatMap]
  congr 1
  funext ⟨line, number⟩
  show (applicable rules phases path).filterMap (fun r => r.findIn path number line) =
    ((applicable rules [] path).filterMap fun r => r.findIn path number line).filter
      fun f => Phase.selected phases f.phase
  rw [applicable_eq_filter, List.filter_filterMap, List.filterMap_filter]
  congr 1
  funext r
  cases hfound : r.findIn path number line with
  | none => simp
  | some f => simp [Option.filter, phase_of_findIn hfound]

/-- Only the phases of its rules are found by a search. -/
theorem exists_rule_of_mem_findAll {rules : List LineRule} {phases : List Phase}
    {path contents : Text} {f : Finding} (h : f ∈ findAll rules phases path contents) :
    ∃ r ∈ rules, r.phase = f.phase := by
  rw [findAll_eq] at h
  obtain ⟨⟨line, number⟩, -, h⟩ := List.mem_flatMap.mp h
  obtain ⟨r, hr, hfound⟩ := List.mem_filterMap.mp h
  exact ⟨r, (List.mem_filter.mp hr).1, (phase_of_findIn hfound).symm⟩

end LineRule

/-! ## The phases of the built-in rules -/

theorem Rule.of_lineRule? {r : Rule} {l : LineRule} (h : r.lineRule? = some l) :
    l.id = r.id ∧ l.phase = r.phase ∧ r.kind ≠ .structural := by
  unfold Rule.lineRule? at h
  split at h
  · contradiction
  · rename_i hkind
    obtain ⟨regex, -, rfl⟩ := Option.map_eq_some_iff.mp h
    exact ⟨rfl, rfl, by rw [hkind]; simp⟩

/-- Every rule of the table that the phases pass searches lines for belongs to a line phase. -/
theorem RuleTable.phase_of_mem_phaseRules {l : LineRule} (h : l ∈ phaseRules) :
    l.phase ∈ Detection.linePhases := by
  have htable : ∀ r ∈ ruleTable, r.group = .phase → r.kind ≠ .structural →
      r.phase ∈ Detection.linePhases := by decide
  obtain ⟨r, hr, hline⟩ := List.mem_filterMap.mp h
  obtain ⟨hr, hgroup⟩ := List.mem_filter.mp hr
  obtain ⟨-, hphase, hkind⟩ := Rule.of_lineRule? hline
  rw [hphase]
  exact htable r hr (eq_of_beq hgroup) hkind

/-! ## The phases pass -/

theorem Provenance.phase_of_mem_ofFile {file : FileEntry} {f : Finding} (h : f ∈ ofFile file) :
    f.phase = .provenance := by
  unfold ofFile at h
  split at h
  · exact nomatch h
  · simp only [List.mem_append, List.mem_ite_nil_right, List.mem_singleton] at h
    rcases h with ((⟨-, rfl⟩ | ⟨-, rfl⟩) | ⟨-, rfl⟩) | ⟨-, rfl⟩ <;> rfl

theorem Provenance.phase_of_mem_ofHistory {fs : FileSystem} {root : Text} {f : Finding}
    (h : f ∈ ofHistory fs root) : f.phase = .provenance := by
  unfold ofHistory at h
  simp only at h
  split at h
  · simp only [List.mem_ite_nil_right, List.mem_singleton] at h
    rw [h.2]
    rfl
  · simp only [List.mem_ite_nil_right, List.mem_singleton] at h
    rw [h.2]
    rfl

theorem Provenance.phase_of_mem_check {fs : FileSystem} {root : Text} {files : List FileEntry}
    {f : Finding} (h : f ∈ check fs root files) : f.phase = .provenance := by
  rcases List.mem_append.mp h with h | h
  · obtain ⟨file, -, h⟩ := List.mem_flatMap.mp h
    exact phase_of_mem_ofFile h
  · exact phase_of_mem_ofHistory h

namespace Detection

variable (fs : FileSystem) (phases : List Phase) (limit : Nat) (files : List FileEntry)

/-- The findings in the text of a file; a file that is skipped has none. -/
def findingsIn (f : FileEntry) : List Finding :=
  match scanFile fs phases limit f with
  | .ok found => found
  | .error _ => []

theorem findings_add (d : Detection) (f : FileEntry) :
    (d.add f (scanFile fs phases limit f)).findings =
      d.findings ++ findingsIn fs phases limit f := by
  unfold findingsIn
  cases scanFile fs phases limit f with
  | ok found => rfl
  | error reason => exact (List.append_nil _).symm

/-- What a scan collects is what it collects from the eligible files, one after the other. -/
theorem collected_scanFiles {α : Type} (part : Detection → List α) (ofFile : FileEntry → List α)
    (hadd : ∀ d f, part (d.add f (scanFile fs phases limit f)) = part d ++ ofFile f) :
    part (scanFiles fs phases limit files) =
      part empty ++ (files.filter FileEntry.eligible).flatMap ofFile := by
  have hfold : ∀ (l : List FileEntry) (d : Detection),
      part (l.foldl (fun d f => d.add f (scanFile fs phases limit f)) d) =
        part d ++ l.flatMap ofFile := by
    intro l
    induction l with
    | nil => intro d; exact (List.append_nil _).symm
    | cons f l ih =>
      intro d
      rw [List.foldl_cons, ih, hadd, List.append_assoc, List.flatMap_cons]
  exact hfold _ _

theorem findings_scanFiles :
    (scanFiles fs phases limit files).findings =
      (files.filter FileEntry.eligible).flatMap (findingsIn fs phases limit) :=
  collected_scanFiles fs phases limit files Detection.findings _ (findings_add fs phases limit)

theorem findingsIn_eq_only (f : FileEntry) :
    findingsIn fs phases limit f = only phases (findingsIn fs [] limit f) := by
  unfold findingsIn scanFile
  cases Content.load fs limit f with
  | ok text => exact LineRule.findAll_eq_only RuleTable.phaseRules phases f.path text
  | error reason => rfl

theorem scanFiles_eq_only :
    (scanFiles fs phases limit files).findings =
      only phases (scanFiles fs [] limit files).findings := by
  rw [findings_scanFiles, findings_scanFiles, Finding.only_flatMap]
  congr 1
  funext f
  exact findingsIn_eq_only fs phases limit f

/-- Without a line phase nothing is found in lines. -/
theorem scanFiles_eq_nil (h : ¬linePhases.any (Phase.selected phases)) :
    (scanFiles fs phases limit files).findings = [] := by
  rw [scanFiles_eq_only, only, List.filter_eq_nil_iff]
  intro f hf hselected
  rw [findings_scanFiles] at hf
  obtain ⟨file, -, hf⟩ := List.mem_flatMap.mp hf
  unfold findingsIn scanFile at hf
  cases hload : Content.load fs limit file with
  | error reason =>
    rw [hload] at hf
    exact nomatch hf
  | ok text =>
    rw [hload] at hf
    obtain ⟨r, hr, hphase⟩ := LineRule.exists_rule_of_mem_findAll hf
    have hline := RuleTable.phase_of_mem_phaseRules hr
    exact h (List.any_eq_true.mpr ⟨f.phase, hphase ▸ hline, hselected⟩)

theorem run_eq_only (root : Text) :
    (run fs phases limit root files).findings =
      only phases (run fs [] limit root files).findings := by
  have hprovenance : (if Phase.selected phases .provenance then Provenance.check fs root files
      else []) = only phases (Provenance.check fs root files) :=
    (Finding.only_eq_ite phases fun f hf => Provenance.phase_of_mem_check hf).symm
  -- Without a selected line phase no line is searched, and no finding of one would be kept.
  have hlines : (if linePhases.any (Phase.selected phases) then scanFiles fs phases limit files
      else empty).findings = only phases (scanFiles fs [] limit files).findings := by
    rw [← scanFiles_eq_only]
    split
    · rfl
    · rename_i hnone
      exact (scanFiles_eq_nil fs phases limit files hnone).symm
  calc (run fs phases limit root files).findings
      = Finding.sort (only phases (Provenance.check fs root files) ++
          only phases (scanFiles fs [] limit files).findings) := by
        rw [← hprovenance, ← hlines]
        rfl
    _ = only phases (Finding.sort (Provenance.check fs root files ++
          (scanFiles fs [] limit files).findings)) := by
        rw [Finding.only_sort, Finding.only_append]
    _ = only phases (run fs [] limit root files).findings := rfl

end Detection

/-! ## The dependencies pass -/

theorem Capabilities.phase_of_mem_findings {path text : Text} {f : Finding}
    (h : f ∈ findings path text) : f.phase = .credentials := by
  obtain ⟨-, -, rfl⟩ := List.mem_map.mp h
  rfl

namespace DependenciesPass

variable (phases : List Phase)

/-- The progress with the findings of the selected phases only. -/
def Progress.only (p : Progress) : Progress := { p with findings := Finding.only phases p.findings }

theorem permissionFindings_eq_only (path text : Text) :
    permissionFindings phases path text = only phases (permissionFindings [] path text) := by
  have hcapabilities : only phases (Capabilities.findings path text) =
      if Phase.selected phases .credentials then Capabilities.findings path text else [] :=
    Finding.only_eq_ite phases fun _ => Capabilities.phase_of_mem_findings
  rw [permissionFindings, permissionFindings, Finding.only_append,
    LineRule.findAll_eq_only RuleTable.dependencyRules phases]
  congr 1
  cases FileScope.container.covers path with
  | true => exact hcapabilities.symm
  | false => rfl

/-- Dependencies that are not pinned are left out together; they are counted all the same. -/
theorem addManifest_only (p : Progress) (m : Manifest) :
    addManifest phases (p.only phases) m = (addManifest [] p m).only phases := by
  have hunpinned : only phases (m.unpinned.map (unpinnedFinding m.file)) =
      if Phase.selected phases RuleTable.unpinnedDependency.phase then
        m.unpinned.map (unpinnedFinding m.file) else [] := by
    refine Finding.only_eq_ite phases fun f hf => ?_
    obtain ⟨d, -, rfl⟩ := List.mem_map.mp hf
    rfl
  unfold addManifest
  split
  · rfl
  · simp only [Progress.only, Finding.only_append, ← hunpinned]
    rfl

theorem addText_only (formats : Formats) (p : Progress) (path text : Text) :
    addText formats phases (p.only phases) path text =
      (addText formats [] p path text).only phases := by
  have hruled : (if isRuled path then
        { p.only phases with
          findings := (p.only phases).findings ++ permissionFindings phases path text }
      else p.only phases) =
      (if isRuled path then
        { p with findings := p.findings ++ permissionFindings [] path text }
      else p).only phases := by
    split
    · simp only [Progress.only, Finding.only_append, permissionFindings_eq_only phases]
    · rfl
  unfold addText
  simp only [hruled]
  split
  · exact addManifest_only phases _ _
  · rfl

end DependenciesPass

/-- The input with other phases selected. -/
def ScanInput.select (input : ScanInput) (phases : List Phase) : ScanInput :=
  { input with config := { input.config with phases } }

namespace DependenciesPass

variable (input : ScanInput) (phases : List Phase)

/-- What the pass gathers from the files of an input. -/
def progress (input : ScanInput) : Progress :=
  gather input.machine.files input.formats input.config input.entries

theorem addFile_only (p : Progress) (f : FileEntry) :
    addFile input.machine.files input.formats (input.select phases).config (p.only phases) f =
      (addFile input.machine.files input.formats (input.select []).config p f).only phases := by
  unfold addFile
  split
  · simp only [ScanInput.select]
    cases Content.load input.machine.files input.config.maxFileBytes f with
    | ok text => exact addText_only phases input.formats p f.path text
    | error reason => rfl
  · rfl

theorem progress_select :
    progress (input.select phases) = (progress (input.select [])).only phases := by
  have hfold : ∀ (files : List FileEntry) (p : Progress),
      files.foldl (addFile input.machine.files input.formats (input.select phases).config)
          (p.only phases) =
        (files.foldl (addFile input.machine.files input.formats (input.select []).config)
          p).only phases := by
    intro files
    induction files with
    | nil => exact fun p => rfl
    | cons f files ih =>
      intro p
      rw [List.foldl_cons, List.foldl_cons, addFile_only, ih]
  exact hfold input.entries start

end DependenciesPass

/-! ## Selecting phases -/

/-- **A selection of phases is a filter.** With phases selected, the built-in rules find what they
find without a selection, in the same order, less the findings in other phases; so does the pass of
dependencies, which reports the same notes and the same status. -/
theorem selection_filters (input : ScanInput) {phases : List Phase} (h : phases ≠ []) :
    let selected (findings : List Finding) := findings.filter fun f => phases.contains f.phase
    (∀ fs limit root files, (Detection.run fs phases limit root files).findings =
      selected (Detection.run fs [] limit root files).findings) ∧
    ∃ (notes : List Text) (findings : List Finding) (detail : Text),
      let steps (findings : List Finding) : List PassStep :=
        notes.map (.note DependenciesPass.name) ++
          [.found DependenciesPass.name findings, .status DependenciesPass.name .ran detail]
      dependenciesPass.run (input.select []) = ⟨steps findings, none⟩ ∧
      dependenciesPass.run (input.select phases) = ⟨steps (selected findings), none⟩ := by
  intro selected
  refine ⟨fun fs limit root files => ?_, ?_⟩
  · rw [Detection.run_eq_only, Finding.only_eq_filter h]
  · let p := DependenciesPass.progress (input.select [])
    have hselected : selected p.findings = only phases p.findings :=
      (Finding.only_eq_filter h p.findings).symm
    refine ⟨p.notes, p.findings, _, rfl, ?_⟩
    show PassRun.ofSteps (DependenciesPass.steps (DependenciesPass.progress (input.select phases)))
      = _
    rw [DependenciesPass.progress_select, hselected]
    rfl

/-- A tree with a hidden file only. -/
def hiddenFileInput : ScanInput where
  machine := ⟨⟨.directory [(".x".ascii, .file ⟨[], 0, false⟩)], []⟩, []⟩
  config := .default
  formats := .none
  root := "/".ascii
  entries := [⟨".x".ascii, "/.x".ascii, 0, false⟩]
  fingerprint := []
  now := 0

/-- What is found in that tree. -/
def hiddenFileFindings (phases : List Phase) : List Finding :=
  (Detection.run hiddenFileInput.machine.files phases 0 "/".ascii hiddenFileInput.entries).findings

theorem selection_filters_hiddenFile :
    let found := RuleTable.hiddenFile.finding ".x".ascii none "Hidden file: .x".ascii
    found ∈ hiddenFileFindings [.provenance, .provenance] ∧
      hiddenFileFindings [.provenance, .provenance] ≠ hiddenFileFindings [.credentials] := by
  intro found
  have hfound (phases : List Phase) (h : phases ≠ []) : hiddenFileFindings phases =
      (hiddenFileFindings []).filter fun f => phases.contains f.phase :=
    (selection_filters hiddenFileInput h).1 hiddenFileInput.machine.files 0 "/".ascii
      hiddenFileInput.entries
  have hall : found ∈ hiddenFileFindings [] := by
    have hfile : ∃ file ∈ hiddenFileInput.entries, found ∈ Provenance.ofFile file := by decide
    refine (Finding.perm_sort _).mem_iff.mpr (List.mem_append_left _ (List.mem_append_left _ ?_))
    exact List.mem_flatMap.mpr hfile
  have hselected : found ∈ hiddenFileFindings [.provenance, .provenance] := by
    rw [hfound _ (by simp)]
    exact List.mem_filter.mpr ⟨hall, rfl⟩
  have hother : found ∉ hiddenFileFindings [.credentials] := by
    rw [hfound _ (by simp)]
    exact fun h => Bool.false_ne_true (List.mem_filter.mp h).2
  exact ⟨hselected, fun heq => hother (heq ▸ hselected)⟩

end Triage
