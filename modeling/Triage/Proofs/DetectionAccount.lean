import Mathlib.Data.List.Nodup
import Triage.Proofs.LineFindings
import Triage.Proofs.SkipNotes

/-!
How the built-in detection accounts for the files of a tree.

Each eligible file is either scanned or noted, and what is found in its lines is reported under its
path. So the findings of different files have different places in the order of reports, and sorting
forgets the order in which the files came (`Detection.findings_run_of_perm`).
-/

namespace Triage

/-! ## Findings of one file -/

theorem LineRule.file_of_mem_findAll {rules : List LineRule} {phases : List Phase}
    {path contents : Text} {g : Finding} (h : g ∈ findAll rules phases path contents) :
    g.file = path := by
  obtain ⟨r, -, number, hreports⟩ := exists_reports_of_mem_findAll h
  exact hreports.file

/-- Findings about the name or the size of a file are about the whole file. -/
theorem Provenance.place_of_mem_ofFile {f : FileEntry} {g : Finding} (h : g ∈ ofFile f) :
    g.file = f.path ∧ g.line = none := by
  unfold ofFile at h
  split at h
  · exact nomatch h
  · simp only [List.mem_append, List.mem_ite_nil_right, List.mem_singleton] at h
    rcases h with ((⟨-, rfl⟩ | ⟨-, rfl⟩) | ⟨-, rfl⟩) | ⟨-, rfl⟩ <;> exact ⟨rfl, rfl⟩

theorem Provenance.line_of_mem_check {fs : FileSystem} {root : Text} {files : List FileEntry}
    {g : Finding} (h : g ∈ check fs root files) : g.line = none := by
  rcases List.mem_append.mp h with h | h
  · obtain ⟨f, -, h⟩ := List.mem_flatMap.mp h
    exact (place_of_mem_ofFile h).2
  · unfold ofHistory at h
    simp only at h
    split at h <;>
    · obtain ⟨-, h⟩ := List.mem_ite_nil_right.mp h
      rw [List.mem_singleton.mp h]
      rfl

namespace Detection

section OneFile

variable {fs : FileSystem} {phases : List Phase} {limit : Nat} {f : FileEntry} {g : Finding}

theorem exists_text_of_mem_findingsIn (h : g ∈ findingsIn fs phases limit f) :
    ∃ text, Content.load fs limit f = .ok text ∧ g ∈ inText phases f.path text := by
  unfold findingsIn scanFile at h
  cases hload : Content.load fs limit f with
  | error reason =>
    rw [hload] at h
    exact nomatch h
  | ok text =>
    rw [hload] at h
    exact ⟨text, rfl, h⟩

theorem file_of_mem_findingsIn (h : g ∈ findingsIn fs phases limit f) : g.file = f.path := by
  obtain ⟨text, -, h⟩ := exists_text_of_mem_findingsIn h
  exact LineRule.file_of_mem_findAll h

/-- The note on a file, if it could not be loaded. -/
def note? (fs : FileSystem) (limit : Nat) (f : FileEntry) : Option Text :=
  match Content.load fs limit f with
  | .ok _ => none
  | .error reason => some ("skipped ".ascii ++ f.path ++ ": ".ascii ++ reason.message)

theorem notesOn_eq : notesOn fs phases limit f = (note? fs limit f).toList := by
  unfold notesOn scanFile note?
  cases Content.load fs limit f <;> rfl

end OneFile

/-! ## All files -/

section AllFiles

variable (fs : FileSystem) (phases : List Phase) (limit : Nat) (files : List FileEntry)

/-- How many files a detection accounts for. -/
def accounted (d : Detection) : Nat := d.filesScanned + d.notes.length

theorem accounted_add (d : Detection) (f : FileEntry) (scanned : Except SkipReason (List Finding)) :
    (d.add f scanned).accounted = d.accounted + 1 := by
  cases scanned with
  | ok found => exact Nat.add_right_comm ..
  | error reason =>
    show d.filesScanned + (d.notes ++ [skipNote f reason]).length = _
    rw [List.length_append, List.length_singleton]
    rfl

theorem accounted_scanFiles :
    (scanFiles fs phases limit files).accounted = (files.filter FileEntry.eligible).length := by
  have hfold : ∀ (l : List FileEntry) (d : Detection),
      (l.foldl (fun d f => d.add f (scanFile fs phases limit f)) d).accounted =
        d.accounted + l.length := by
    intro l
    induction l with
    | nil => exact fun d => rfl
    | cons f l ih =>
      intro d
      rw [List.foldl_cons, ih, accounted_add, List.length_cons, Nat.add_right_comm]
      rfl
  exact (hfold _ empty).trans (Nat.zero_add _)

theorem run_of_searches (root : Text) (hlines : linePhases.any (Phase.selected phases)) :
    run fs phases limit root files =
      { scanFiles fs phases limit files with
        findings := Finding.sort
          ((if Phase.selected phases .provenance then Provenance.check fs root files else []) ++
            (scanFiles fs phases limit files).findings) } := by
  rw [run, if_pos hlines]

end AllFiles

end Detection

/-! ## The order of the files -/

theorem FileEntry.filter_path_of_perm {files files' : List FileEntry} (h : files.Perm files')
    (hpaths : (files.map FileEntry.path).Nodup) (path : Text) :
    files.filter (·.path = path) = files'.filter (·.path = path) := by
  -- There is at most one file with this path.
  have hany (l : List FileEntry) : l.Pairwise fun _ _ => True :=
    List.pairwise_of_forall fun _ _ => trivial
  refine List.Perm.eq_of_pairwise (fun f g hf hg _ _ => ?_) (hany _) (hany _) (h.filter _)
  obtain ⟨hf, hfpath⟩ := List.mem_filter.mp hf
  obtain ⟨hg, hgpath⟩ := List.mem_filter.mp hg
  exact List.inj_on_of_nodup_map hpaths hf (h.mem_iff.mpr hg)
    ((of_decide_eq_true hfpath).trans (of_decide_eq_true hgpath).symm)

/-- Under each key of the order there are findings of one file at most. -/
theorem Finding.filter_sortKey_flatMap_of_perm {files files' : List FileEntry}
    (h : files.Perm files') (hpaths : (files.map FileEntry.path).Nodup)
    {found : FileEntry → List Finding} (hfound : ∀ f, ∀ g ∈ found f, g.file = f.path)
    (key : Text × Int × Text × Text) :
    (files.flatMap found).filter (·.sortKey = key) =
      (files'.flatMap found).filter (·.sortKey = key) := by
  have hlocal (l : List FileEntry) : (l.flatMap found).filter (·.sortKey = key) =
      (l.filter (·.path = key.1)).flatMap fun f => (found f).filter (·.sortKey = key) := by
    rw [List.filter_flatMap]
    refine (flatMap_filter_of_nil fun f _ hother => ?_).symm
    refine List.filter_eq_nil_iff.mpr fun g hg hkey => hother ?_
    rw [← of_decide_eq_true hkey, ← hfound f g hg]
    exact decide_eq_true rfl
  rw [hlocal, hlocal, FileEntry.filter_path_of_perm h hpaths]

namespace Detection

variable {fs : FileSystem} {phases : List Phase} {limit : Nat} {root : Text}
  {files files' : List FileEntry}

/-- The order in which the files come does not matter to what is found. -/
theorem findings_run_of_perm (hlines : linePhases.any (Phase.selected phases))
    (h : files.Perm files') (hpaths : (files.map FileEntry.path).Nodup) :
    (run fs phases limit root files).findings = (run fs phases limit root files').findings := by
  have heligible : ((files.filter FileEntry.eligible).map FileEntry.path).Nodup :=
    hpaths.sublist (List.filter_sublist.map _)
  have hprovenance := Finding.filter_sortKey_flatMap_of_perm h hpaths
    (fun f g (hg : g ∈ Provenance.ofFile f) => (Provenance.place_of_mem_ofFile hg).1)
  have hfound := Finding.filter_sortKey_flatMap_of_perm (h.filter FileEntry.eligible) heligible
    fun f g (hg : g ∈ findingsIn fs phases limit f) => file_of_mem_findingsIn hg
  rw [run_of_searches _ _ _ _ _ hlines, run_of_searches _ _ _ _ _ hlines, findings_scanFiles,
    findings_scanFiles]
  refine (Finding.precedes_keyed.mergeSort_eq_iff _ _).mpr fun key => ?_
  rw [List.filter_append, List.filter_append, hfound key]
  congr 1
  split
  · rw [Provenance.check, Provenance.check, List.filter_append, List.filter_append, hprovenance key]
  · rfl

/-- **Every eligible file is accounted for.** If lines are searched, the files that were scanned and
the notes make up the eligible files: there is a note for each that could not be loaded, and for no
other. What is found on a line was found in a file that was scanned. The findings are in order, and
it does not matter in which order the files come, as long as their paths differ. -/
theorem files_accounted (fs : FileSystem) (phases : List Phase) (limit : Nat) (root : Text)
    (files : List FileEntry) (hlines : linePhases.any (Phase.selected phases)) :
    let eligible := files.filter FileEntry.eligible
    let d := run fs phases limit root files
    d.filesScanned + d.notes.length = eligible.length ∧
    d.notes = eligible.filterMap (note? fs limit) ∧
    (∀ g ∈ d.findings, g.line ≠ none → ∃ f ∈ eligible, ∃ text,
      Content.load fs limit f = .ok text ∧ g.file = f.path ∧ g ∈ inText phases f.path text) ∧
    d.findings.Pairwise (fun a b => ¬b.precedes a) ∧
    ∀ files', files.Perm files' → (files.map FileEntry.path).Nodup →
      (run fs phases limit root files').findings = d.findings := by
  intro eligible d
  have hd := run_of_searches fs phases limit files root hlines
  refine ⟨?_, ?_, fun g hg hline => ?_, ?_, fun files' h hpaths =>
    (findings_run_of_perm hlines h hpaths).symm⟩
  · rw [show d = _ from hd]
    exact accounted_scanFiles fs phases limit files
  · rw [show d.notes = _ from notes_run fs phases limit files root, if_pos hlines,
      List.filterMap_eq_flatMap_toList]
    exact List.flatMap_congr fun f _ => notesOn_eq
  · rw [show d.findings = _ from congrArg findings hd] at hg
    rcases List.mem_append.mp ((Finding.perm_sort _).mem_iff.mp hg) with hg | hg
    · exact absurd (Provenance.line_of_mem_check (List.mem_ite_nil_right.mp hg).2) hline
    · rw [findings_scanFiles] at hg
      obtain ⟨f, hf, hg⟩ := List.mem_flatMap.mp hg
      obtain ⟨text, hload, hg'⟩ := exists_text_of_mem_findingsIn hg
      exact ⟨f, hf, text, hload, file_of_mem_findingsIn hg, hg'⟩
  · rw [show d.findings = _ from congrArg findings hd]
    refine (List.pairwise_mergeSort Finding.precedes_keyed.trans Finding.precedes_keyed.total
      _).imp fun h => ?_
    simpa using h

/-- A setup script with an install hook, and a file that is no text. -/
def hookFiles : FileSystem :=
  ⟨.directory [("setup.py".ascii, .file ⟨"cmdclass".ascii, 0, false⟩),
    ("data.py".ascii, .file ⟨"a".ascii, 1, false⟩)], []⟩

def setupScript : FileEntry := ⟨"setup.py".ascii, "/setup.py".ascii, 8, true⟩

def hookEntries : List FileEntry := [setupScript, ⟨"data.py".ascii, "/data.py".ascii, 2, true⟩]

theorem load_setupScript : Content.load hookFiles 0 setupScript = .ok "cmdclass".ascii := by
  cbv

/-- The built-in rule for such a hook. -/
def hookRule : LineRule where
  id := "INSTALL-001".ascii
  phase := .installHooks
  severity := .critical
  weight := Phase.installHooks.weight
  description := "setup.py cmdclass override (runs at install time)".ascii
  scope := .setupScript
  source := builtinSource
  regex := "cmdclass".ascii.foldr (fun b r => .seq (.byte (.literal false b)) r) .empty

theorem hookRule_mem : hookRule ∈ RuleTable.phaseRules := by
  let r : Rule := RuleTable.inPhase .installHooks .critical .setupScript "INSTALL-001"
    "setup.py cmdclass override (runs at install time)" (RuleTable.exactly "cmdclass")
  have hr : r ∈ ruleTable := List.mem_cons_self
  have hpattern : Regex.ofPattern? false "cmdclass".ascii = some hookRule.regex := by
    decide +kernel
  have hline : r.lineRule? = some hookRule := by
    simp only [r, Rule.lineRule?, RuleTable.inPhase, RuleTable.exactly, hpattern, Option.map_some]
    rfl
  exact List.mem_filterMap.mpr ⟨r, List.mem_filter.mpr ⟨hr, rfl⟩, hline⟩

theorem exists_finding_hookFiles :
    ∃ g ∈ (run hookFiles [.installHooks] 0 "/".ascii hookEntries).findings, g.line = some 1 := by
  have hhit : (hookRule.findIn "setup.py".ascii 1 "cmdclass".ascii).map Finding.line =
      some (some 1) := by
    cbv
  have hlines : Text.lines "cmdclass".ascii = ["cmdclass".ascii] := by cbv
  obtain ⟨g, hg, hline⟩ := Option.map_eq_some_iff.mp hhit
  have hfound : g ∈ inText [.installHooks] "setup.py".ascii "cmdclass".ascii := by
    rw [inText, LineRule.findAll_eq, hlines]
    refine List.mem_flatMap.mpr ⟨("cmdclass".ascii, 1), List.mem_cons_self, ?_⟩
    exact List.mem_filterMap.mpr ⟨hookRule, List.mem_filter.mpr ⟨hookRule_mem, by decide⟩, hg⟩
  refine ⟨g, ?_, hline⟩
  rw [run_of_searches _ _ _ _ _ rfl]
  refine (Finding.perm_sort _).mem_iff.mpr (List.mem_append_right _ ?_)
  rw [findings_scanFiles]
  refine List.mem_flatMap.mpr ⟨setupScript, List.mem_cons_self, ?_⟩
  rw [findingsIn, scanFile, load_setupScript]
  exact hfound

theorem files_accounted_hook :
    let d := run hookFiles [.installHooks] 0 "/".ascii hookEntries
    linePhases.any (Phase.selected [.installHooks]) ∧
      (hookEntries.map FileEntry.path).Nodup ∧
      d.notes = ["skipped data.py: binary content".ascii] ∧
      d.filesScanned + d.notes.length = 2 ∧
      (∃ g ∈ d.findings, g.line = some 1 ∧ ∃ f ∈ hookEntries, g.file = f.path) ∧
      (run hookFiles [.installHooks] 0 "/".ascii hookEntries.reverse).findings = d.findings := by
  intro d
  have hpaths : (hookEntries.map FileEntry.path).Nodup := by decide
  have hnotes : hookEntries.filterMap (note? hookFiles 0) =
      ["skipped data.py: binary content".ascii] := by
    cbv
  obtain ⟨hcount, hnoted, hlocated, -, horder⟩ :=
    files_accounted hookFiles [.installHooks] 0 "/".ascii hookEntries rfl
  obtain ⟨g, hg, hline⟩ := exists_finding_hookFiles
  obtain ⟨f, hf, -, -, hfile, -⟩ := hlocated g hg (by rw [hline]; exact Option.some_ne_none 1)
  exact ⟨rfl, hpaths, hnoted.trans hnotes, hcount,
    ⟨g, hg, hline, f, (List.mem_filter.mp hf).1, hfile⟩,
    horder _ (List.reverse_perm _).symm hpaths⟩

end Detection

end Triage
