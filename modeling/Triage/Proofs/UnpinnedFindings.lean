import Mathlib
import Triage.Proofs.ManifestLines

/-!
What the pass of dependencies makes of the manifests of a tree.

The pass goes through the files. A manifest that it can read adds what it declares to the totals,
and a finding for each dependency that is not pinned; any other file adds to neither of them, since
nothing else is reported under that rule. So after every file the progress accounts for the
manifests up to there (`Progress.Accounts`).
-/

namespace Triage

/-! ## The rule of unpinned dependencies -/

theorem RuleTable.id_of_mem_dependencyRules {l : LineRule} (h : l ∈ dependencyRules) :
    l.id ≠ unpinnedDependency.id := by
  have htable : ∀ r ∈ ruleTable, r.kind ≠ .structural → r.id ≠ unpinnedDependency.id := by decide
  obtain ⟨r, hr, hline⟩ := List.mem_filterMap.mp h
  obtain ⟨hid, -, hkind⟩ := Rule.of_lineRule? hline
  rw [hid]
  exact htable r (List.mem_filter.mp hr).1 hkind

namespace DependenciesPass

/-- Whether a finding is reported under the rule of unpinned dependencies. -/
def isUnpinned (f : Finding) : Bool := f.rule == "DEP-001".ascii

theorem filter_map_unpinnedFinding (file : Text) (l : List Dependency) :
    (l.map (unpinnedFinding file)).filter isUnpinned = l.map (unpinnedFinding file) := by
  refine List.filter_eq_self.mpr fun f hf => ?_
  obtain ⟨d, -, rfl⟩ := List.mem_map.mp hf
  rfl

theorem filter_permissionFindings (phases : List Phase) (path text : Text) :
    (permissionFindings phases path text).filter isUnpinned = [] := by
  refine List.filter_eq_nil_iff.mpr fun f hf hunpinned => ?_
  have hrule : f.rule = RuleTable.unpinnedDependency.id := eq_of_beq hunpinned
  rcases List.mem_append.mp hf with hf | hf
  · obtain ⟨r, hr, number, hreports⟩ := LineRule.exists_reports_of_mem_findAll hf
    exact RuleTable.id_of_mem_dependencyRules hr (hreports.rule.symm.trans hrule)
  · obtain ⟨⟨line, number⟩, -, rfl⟩ := List.mem_map.mp (List.mem_ite_nil_right.mp hf).2
    have hother : RuleTable.addedCapability.id ≠ RuleTable.unpinnedDependency.id := by decide
    exact hother hrule

end DependenciesPass

/-! ## The manifests of a tree -/

/-- The manifest that a file is, if it is one and can be loaded. -/
def ScanInput.manifest? (input : ScanInput) (f : FileEntry) : Option Manifest :=
  if f.eligible then
    (Content.load input.machine.files input.config.maxFileBytes f).toOption.bind fun text =>
      Manifest.ofFile? f.path text input.formats.document
  else none

/-- The manifests of the tree that can be loaded, in the order of the files. -/
def ScanInput.manifests (input : ScanInput) : List Manifest :=
  input.entries.filterMap input.manifest?

/-- Whether the manifest was understood. -/
def Manifest.isRead (m : Manifest) : Bool := m.error.isEmpty

theorem ScanInput.ofFile?_of_manifest? {input : ScanInput} {f : FileEntry} {m : Manifest}
    (h : input.manifest? f = some m) :
    ∃ text, Manifest.ofFile? f.path text input.formats.document = some m := by
  obtain ⟨-, h⟩ := Option.ite_none_right_eq_some.mp h
  obtain ⟨text, -, h⟩ := Option.bind_eq_some_iff.mp h
  exact ⟨text, h⟩

/-! ## Totals and findings -/

namespace DependenciesPass

/-- The progress of a pass that has gone through some manifests. -/
structure Progress.Accounts (p : Progress) (manifests : List Manifest) : Prop where
  unpinned : p.findings.filter isUnpinned =
    manifests.flatMap fun m => m.unpinned.map (unpinnedFinding m.file)
  totals : p.totals = ⟨manifests.length, (manifests.map Manifest.packages).sum,
    (manifests.map fun m => m.unpinned.length).sum⟩

namespace Progress.Accounts

variable {p : Progress} {manifests : List Manifest}

theorem start : DependenciesPass.start.Accounts [] := ⟨rfl, rfl⟩

/-- What is found besides does not matter. -/
theorem addFindings (h : p.Accounts manifests) {found : List Finding}
    (hfound : found.filter isUnpinned = []) :
    { p with findings := p.findings ++ found }.Accounts manifests where
  unpinned := by
    rw [List.filter_append, hfound, List.append_nil]
    exact h.unpinned
  totals := h.totals

variable {phases : List Phase} (hphase : Phase.selected phases .provenance)
include hphase

theorem addManifest (h : p.Accounts manifests) (m : Manifest) :
    (DependenciesPass.addManifest phases p m).Accounts
      (manifests ++ [m].filter Manifest.isRead) := by
  have hphase : Phase.selected phases RuleTable.unpinnedDependency.phase := hphase
  unfold DependenciesPass.addManifest
  split
  · next herror =>
    have hread : ¬m.isRead := by simpa [Manifest.isRead] using herror
    rw [List.filter_cons_of_neg hread, List.filter_nil, List.append_nil]
    exact ⟨h.unpinned, h.totals⟩
  · next herror =>
    have hread : m.isRead := by simpa [Manifest.isRead] using herror
    rw [List.filter_cons_of_pos hread, List.filter_nil]
    constructor
    · show (p.findings ++ m.unpinned.map (unpinnedFinding m.file)).filter isUnpinned = _
      rw [List.filter_append, filter_map_unpinnedFinding, h.unpinned, List.flatMap_append,
        List.flatMap_singleton]
    · simp only [h.totals, List.length_append, List.length_singleton, List.map_append,
        List.map_singleton, List.sum_append, List.sum_singleton]

theorem addText (h : p.Accounts manifests) (formats : Formats) (path text : Text) :
    (DependenciesPass.addText formats phases p path text).Accounts
      (manifests ++
        (Manifest.ofFile? path text formats.document).toList.filter Manifest.isRead) := by
  have hruled : (if isRuled path then
      { p with findings := p.findings ++ permissionFindings phases path text }
      else p).Accounts manifests := by
    split
    · exact h.addFindings (filter_permissionFindings phases path text)
    · exact h
  have hcovers := Manifest.covers_eq_isSome_ofFile? path text formats.document
  unfold DependenciesPass.addText
  simp only
  cases hfile : Manifest.ofFile? path text formats.document with
  | none =>
    rw [hfile] at hcovers
    simpa [hcovers] using hruled
  | some m =>
    rw [hfile] at hcovers
    simpa [hcovers] using hruled.addManifest hphase m

end Progress.Accounts

namespace Progress.Accounts

variable {p : Progress} {manifests : List Manifest} {input : ScanInput}
  (hphase : Phase.selected input.config.phases .provenance)
include hphase

theorem addFile (h : p.Accounts manifests) (f : FileEntry) :
    (DependenciesPass.addFile input.machine.files input.formats input.config p f).Accounts
      (manifests ++ (input.manifest? f).toList.filter Manifest.isRead) := by
  have hnothing : p.Accounts (manifests ++ []) := by rwa [List.append_nil]
  unfold DependenciesPass.addFile ScanInput.manifest?
  cases heligible : f.eligible with
  | false => exact hnothing
  | true =>
    cases hload : Content.load input.machine.files input.config.maxFileBytes f with
    | error reason =>
      simp only [Bool.true_and, ite_self]
      exact hnothing
    | ok text =>
      simp only [Bool.true_and, if_true]
      split
      · exact h.addText hphase input.formats f.path text
      · next hother =>
        -- A file that no rule covers is no manifest either.
        have hnone : Manifest.ofFile? f.path text input.formats.document = none := by
          refine Option.not_isSome_iff_eq_none.mp fun hsome => hother ?_
          rw [Manifest.covers_eq_isSome_ofFile? f.path text, hsome, Bool.true_or]
        show p.Accounts
          (manifests ++ (Manifest.ofFile? f.path text input.formats.document).toList.filter _)
        rw [hnone]
        exact hnothing

theorem progress :
    (DependenciesPass.progress input).Accounts (input.manifests.filter Manifest.isRead) := by
  have hfold (files : List FileEntry) : ∀ {p : Progress} {manifests : List Manifest},
      p.Accounts manifests →
        (files.foldl (DependenciesPass.addFile input.machine.files input.formats input.config)
          p).Accounts (manifests ++ (files.filterMap input.manifest?).filter Manifest.isRead) := by
    induction files with
    | nil =>
      intro p manifests h
      rwa [List.filterMap_nil, List.filter_nil, List.append_nil]
    | cons f files ih =>
      intro p manifests h
      have hrest := ih (h.addFile hphase f)
      have hmanifests : (f :: files).filterMap input.manifest? =
          (input.manifest? f).toList ++ files.filterMap input.manifest? := by
        cases hf : input.manifest? f <;> simp [hf]
      rwa [List.append_assoc, ← List.filter_append, ← hmanifests] at hrest
  exact hfold input.entries start

end Progress.Accounts

/-! ## Manifests that are read by lines -/

variable {input : ScanInput}

/-- Without JSON every manifest is understood, and its dependencies bear the numbers of lines. -/
theorem manifest_readByLines
    (hjson : ∀ f ∈ input.entries, Text.baseName f.path ≠ "package.json".ascii) {m : Manifest}
    (hm : m ∈ input.manifests) : m.isRead ∧ ∀ d ∈ m.unpinned, 1 ≤ d.line := by
  obtain ⟨f, hf, hm⟩ := List.mem_filterMap.mp hm
  obtain ⟨text, hfile⟩ := ScanInput.ofFile?_of_manifest? hm
  have hkind : m.kind ≠ .packageJson := fun hkind =>
    hjson f hf (Manifest.baseName_of_ofPath? (hkind ▸ Manifest.kind_of_ofFile? hfile))
  have hpoints := Manifest.pointsInto_of_mem_readByLines
    (Manifest.dependencies_of_ofFile? hfile hkind)
  refine ⟨?_, fun d hd => (hpoints.line_mem d hd).1⟩
  rw [Manifest.isRead, Manifest.error_of_ofFile? hfile hkind]
  rfl

/-- A finding names the manifest and the line of its dependency. -/
theorem place_unpinnedFinding (file : Text) {d : Dependency} (hd : 1 ≤ d.line) :
    ((unpinnedFinding file d).file, (unpinnedFinding file d).line) = (file, some d.line) := by
  have hline : d.line ≠ 0 := by omega
  simp only [unpinnedFinding, Rule.finding, if_neg hline]

/-- **Manifest summaries are consistent.** Whatever a manifest holds that is read by lines, its
unpinned dependencies are no more than its packages, in the order of their lines, and each points to
a line of the text that has its name. In a tree without JSON manifests the pass reports each
unpinned dependency of each manifest that it can load, at its file and line, and nothing else under
that rule; its status tells how many manifests, packages and unpinned dependencies there are. A
manifest is what the rules take for one. -/
theorem manifests_reported :
    (∀ (m : Manifest) text, m.dependencies ∈ Manifest.readByLines text → m.PointsInto text) ∧
    (∀ input : ScanInput, Phase.selected input.config.phases .provenance →
      (∀ f ∈ input.entries, Text.baseName f.path ≠ "package.json".ascii) →
      ∃ (notes : List Text) (findings : List Finding),
        dependenciesPass.run input = .ofSteps (notes.map (.note name) ++
          [.found name findings,
           .status name .ran (Text.ofNat input.manifests.length ++ " manifests, ".ascii ++
             Text.ofNat (input.manifests.map Manifest.packages).sum ++ " packages, ".ascii ++
             Text.ofNat (input.manifests.map fun m => m.unpinned.length).sum ++
             " unpinned".ascii)]) ∧
        (findings.filter isUnpinned).map (fun f => (f.file, f.line)) =
          input.manifests.flatMap fun m => m.unpinned.map fun d => (m.file, some d.line)) ∧
    (∀ path text document,
      FileScope.manifest.covers path = (Manifest.ofFile? path text document).isSome) := by
  refine ⟨fun m text => Manifest.pointsInto_of_mem_readByLines, fun input hphase hjson => ?_,
    Manifest.covers_eq_isSome_ofFile?⟩
  have haccounts := Progress.Accounts.progress hphase
  have hread : input.manifests.filter Manifest.isRead = input.manifests :=
    List.filter_eq_self.mpr fun m hm => (manifest_readByLines hjson hm).1
  rw [hread] at haccounts
  refine ⟨(progress input).notes, (progress input).findings, ?_, ?_⟩
  · show PassRun.ofSteps (steps (progress input)) = _
    rw [steps, haccounts.totals]
  · rw [haccounts.unpinned, List.map_flatMap]
    refine List.flatMap_congr fun m hm => ?_
    rw [List.map_map]
    exact List.map_congr_left fun d hd =>
      place_unpinnedFinding m.file ((manifest_readByLines hjson hm).2 d hd)

/-- The text of a manifest of which the second package is not pinned. -/
def looseText : Text := "flask==2.0\nrequests\n".ascii

def looseFile : FileEntry := ⟨"requirements.txt".ascii, "/requirements.txt".ascii, 20, true⟩

/-- A tree with that manifest only. -/
def looseInput : ScanInput where
  machine := ⟨⟨.directory [("requirements.txt".ascii, .file ⟨looseText, 0, false⟩)], []⟩, []⟩
  config := .default
  formats := .none
  root := "/".ascii
  entries := [looseFile]
  fingerprint := []
  now := 0

def looseManifest : Manifest where
  file := "requirements.txt".ascii
  kind := .requirements
  dependencies := [⟨"flask".ascii, "==2.0".ascii, 1, true⟩, ⟨"requests".ascii, [], 2, false⟩]
  error := []

theorem dependencies_looseText :
    Requirements.dependencies looseText = looseManifest.dependencies := rfl

theorem manifests_looseInput : looseInput.manifests = [looseManifest] := by
  have hload : Content.load looseInput.machine.files looseInput.config.maxFileBytes looseFile =
      .ok looseText := by
    cbv
  have hfile : looseInput.manifest? looseFile = some looseManifest := by
    have heligible : looseFile.eligible := rfl
    rw [ScanInput.manifest?, if_pos heligible, hload]
    show some (Manifest.mk _ _ (Requirements.dependencies looseText) _) = _
    rw [dependencies_looseText]
    rfl
  exact List.filterMap_cons_some hfile

theorem manifests_reported_loose :
    looseManifest.PointsInto looseText ∧
      ∃ (notes : List Text) (findings : List Finding),
        dependenciesPass.run looseInput = .ofSteps (notes.map (.note name) ++
          [.found name findings,
            .status name .ran "1 manifests, 2 packages, 1 unpinned".ascii]) ∧
        (findings.filter isUnpinned).map (fun f => (f.file, f.line)) =
          [("requirements.txt".ascii, some 2)] := by
  have hread : looseManifest.dependencies ∈ Manifest.readByLines looseText :=
    dependencies_looseText ▸ List.mem_cons_self
  have hjson : ∀ f ∈ looseInput.entries, Text.baseName f.path ≠ "package.json".ascii := by decide
  obtain ⟨notes, findings, hrun, hplaces⟩ := manifests_reported.2.1 looseInput rfl hjson
  rw [manifests_looseInput] at hrun hplaces
  exact ⟨manifests_reported.1 looseManifest _ hread, notes, findings, hrun, hplaces⟩

end DependenciesPass

end Triage
