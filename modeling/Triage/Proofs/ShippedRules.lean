import Mathlib
import Triage.Proofs.FileSystem.Agreement
import Triage.Proofs.SkipNotes

/-!
Ignore files that are part of the scanned tree.

Trees that differ in such files alone (`FileSystem.SameButRules`) have the same directories and
links, so the walks list the same but for the ignore files, and of these no rule looks at anything
(`FileEntry.counts`). What is left are the few paths that a scan follows by itself; if none leads to
an ignore file that differs, the reports are the same but for the fingerprint
(`Scanner.scan_shippedRules`). If one does, or if the system does not take the path of an ignore
file, the file tells in the report (`Scanner.shippedRules_count`).
-/

namespace Triage

open Triage.Path (IsName AreNames)
open FileSystem (AgreeAt AgreeOn SameWays)

/-! ## Trees that differ in their ignore files -/

/-- The name of the ignore files that a tree may bring along. -/
def ignoreFileName : Text := ".sigilignore".ascii

namespace FileSystem

/-- There is nothing, or a regular file that is not reported for its size. -/
def MayBeRules (entry : Option Node) : Prop :=
  ∀ n, entry = some n → ∃ data, n = .file data ∧ data.size ≤ Provenance.largeSize

/-- The place of an ignore file below a directory, to which the path `root` leads. The system takes
its path, and in neither tree anything else is there. -/
structure IsRulesPlace (root : Text) (fs fs' : FileSystem) (dir below : List Text) : Prop where
  name : below.getLast? = some ignoreFileName
  reachable : WalkResult.reachable root (Path.ofNames below)
  before : MayBeRules (fs.nodeAt? (dir ++ below))
  after : MayBeRules (fs'.nodeAt? (dir ++ below))

/-- Below the directory to which the path `root` leads, ignore files were added, removed and
rewritten, and nothing else was changed. -/
structure SameButRules (root : Text) (dir : List Text) (fs fs' : FileSystem) : Prop where
  workingDirectory : fs.workingDirectory = fs'.workingDirectory
  same : ∀ ns, AgreeAt fs fs' ns ∨ ∃ below, ns = dir ++ below ∧ IsRulesPlace root fs fs' dir below

variable {fs fs' : FileSystem} {root : Text} {dir below : List Text} {es es' : List (Text × Node)}

theorem SameButRules.symm (h : SameButRules root dir fs fs') : SameButRules root dir fs' fs where
  workingDirectory := h.workingDirectory.symm
  same ns := (h.same ns).imp AgreeAt.symm fun ⟨below, heq, hplace⟩ =>
    ⟨below, heq, { hplace with before := hplace.after, after := hplace.before }⟩

/-- No directory and no link is where the trees differ. -/
theorem SameButRules.agreeAt (h : SameButRules root dir fs fs') {ns : List Text} {n : Node}
    (hn : fs.nodeAt? ns = some n) (hfile : ∀ data, n ≠ .file data) : AgreeAt fs fs' ns := by
  rcases h.same ns with hagree | ⟨below, rfl, hplace⟩
  · exact hagree
  · obtain ⟨data, rfl, -⟩ := hplace.before n hn
    exact absurd rfl (hfile data)

theorem SameButRules.sameWays (h : SameButRules root dir fs fs') : SameWays fs fs' where
  workingDirectory := h.workingDirectory
  directory _ _ hes := h.agreeAt hes (by simp)
  directory' _ _ hes := (h.symm.agreeAt hes (by simp)).symm
  link _ _ ht := h.agreeAt ht (by simp)
  link' _ _ ht := (h.symm.agreeAt ht (by simp)).symm

theorem SameButRules.leadsTo (h : SameButRules root dir fs fs') (hroot : fs.LeadsTo root dir es) :
    ∃ es', fs'.LeadsTo root dir es' := by
  have hdir := nodeAt?_of_locate hroot
  have hagree := h.agreeAt hdir (by simp)
  obtain ⟨es', hes'⟩ := hagree.directory hdir
  exact ⟨es', (locate_agree h.sameWays hagree hroot).trans (by rw [hes'])⟩

/-- Nothing is below an ignore file. -/
theorem MayBeRules.find?_below {entry : Option Node} (h : MayBeRules entry) {more : List Text}
    (hmore : more ≠ []) : (entry.bind fun n => n.find? more) = none := by
  cases entry with
  | none => rfl
  | some n =>
    obtain ⟨data, rfl, -⟩ := h n rfl
    cases more with
    | nil => exact absurd rfl hmore
    | cons name more => rfl

/-- An ignore file that is added to a directory of the tree, or rewritten there, is such a
difference. -/
theorem sameButRules_setAt {above : List Text} {data : FileData}
    (hdir : fs.nodeAt? (dir ++ above) = some (.directory es))
    (hbefore : MayBeRules (es.lookup ignoreFileName)) (hsize : data.size ≤ Provenance.largeSize)
    (hreach : WalkResult.reachable root (Path.ofNames (above ++ [ignoreFileName]))) :
    SameButRules root dir fs (fs.setAt (dir ++ above ++ [ignoreFileName]) (some (.file data))) where
  workingDirectory := rfl
  same ns := by
    have hentry := nodeAt?_concat hdir ignoreFileName
    have hafter := nodeAt?_concat (nodeAt?_setAt_entry hdir ignoreFileName (some (.file data)))
      ignoreFileName
    rw [Node.lookup_setEntry_some] at hafter
    have hfile : MayBeRules (some (.file data)) := fun n hn =>
      ⟨data, (Option.some.inj hn).symm, hsize⟩
    -- Nothing stands below a file, neither before nor after.
    by_cases hinside : dir ++ above ++ [ignoreFileName] <+: ns
    · obtain ⟨more, rfl⟩ := hinside
      by_cases hmore : more = []
      · subst hmore
        refine Or.inr ⟨above ++ [ignoreFileName], by simp, by simp, hreach, ?_, ?_⟩
        · rwa [← List.append_assoc, hentry]
        · rwa [← List.append_assoc, hafter]
      · refine Or.inl ?_
        rw [AgreeAt, nodeAt?_append fs (dir ++ above ++ [ignoreFileName]), hentry,
          hbefore.find?_below hmore, nodeAt?_append _ (dir ++ above ++ [ignoreFileName]), hafter,
          hfile.find?_below hmore]
    · exact Or.inl (agreeAt_setAt hinside fs _)

theorem hasTree_of_leadsTo (hroot : fs.LeadsTo root dir es) (hwell : fs.root.WellFormed) :
    fs.HasTree root es where
  lists := by
    rw [listDirectory, node_of_locate hroot]
    rfl
  wellFormed := hwell.below (nodeAt?_of_locate hroot)

theorem nodeAt?_below (hroot : fs.LeadsTo root dir es) (below : List Text) :
    fs.nodeAt? (dir ++ below) = (Node.directory es).find? below := by
  have hdir := nodeAt?_of_locate hroot
  rw [nodeAt?] at hdir
  rw [nodeAt?, Node.find?_append, hdir, Option.bind_some]

end FileSystem

/-! ## What the scan lists -/

namespace FileEntry

/-- Whether the built-in rules look at a file at all, at its contents or at its name and size. -/
def counts (f : FileEntry) : Bool := f.eligible || !(Provenance.ofFile f).isEmpty

end FileEntry

theorem Path.baseName_ofNames {init : List Text} {last : Text} (h : IsName last) :
    Text.baseName (Path.ofNames (init ++ [last])) = last := by
  have hname : ∀ rest, (last.reverse ++ rest).takeWhile (· != Byte.slash) =
      last.reverse ++ rest.takeWhile (· != Byte.slash) := fun rest =>
    List.takeWhile_append_of_pos fun b hb => by
      simpa using fun heq : b = Byte.slash => h.noSlash (heq ▸ List.mem_reverse.mp hb)
  rw [Text.baseName, Text.afterLast]
  by_cases hinit : init = []
  · subst hinit
    have hrow := hname []
    rw [List.append_nil] at hrow
    rw [List.nil_append, Path.ofNames, Text.joinWith, hrow]
    simp
  · rw [Path.ofNames, Text.joinWith_concat _ hinit, List.append_assoc, List.reverse_append,
      List.reverse_append, List.append_assoc, hname]
    simp

/-- The rules look at nothing of an ignore file, unless it is large. -/
theorem counts_ignoreFile {root : Text} {below : List Text} {data : FileData}
    (hnames : AreNames below) (hname : below.getLast? = some ignoreFileName)
    (hsize : data.size ≤ Provenance.largeSize) :
    (WalkResult.entryOf root below data).counts = false := by
  obtain ⟨init, rfl⟩ := List.getLast?_eq_some_iff.mp hname
  have hbase : Text.baseName (Path.ofNames (init ++ [ignoreFileName])) = ignoreFileName :=
    Path.baseName_ofNames (hnames _ (by simp))
  have heligible : FileEntry.isEligible (Path.ofNames (init ++ [ignoreFileName])) = false := by
    rw [FileEntry.isEligible, hbase]
    decide
  have hlarge : ¬Provenance.largeSize < data.size := Nat.not_lt.mpr hsize
  have hhidden : Provenance.isHiddenName ignoreFileName = false := by decide
  have hbinary : Provenance.isBinaryName ignoreFileName = false := by decide
  have hsuspicious : Provenance.isSuspiciousName ignoreFileName = false := by decide
  simp [FileEntry.counts, WalkResult.entryOf, heligible, Provenance.ofFile, hbase, hlarge, hhidden,
    hbinary, hsuspicious]

namespace WalkResult

variable {fs fs' : FileSystem} {root : Text} {dir : List Text} {es es' : List (Text × Node)}
variable {rules : IgnoreRules}

/-- The two walks of trees that differ in their ignore files. -/
structure Walks (root : Text) (dir : List Text) (fs fs' : FileSystem)
    (es es' : List (Text × Node)) : Prop where
  same : FileSystem.SameButRules root dir fs fs'
  left : fs.LeadsTo root dir es
  right : fs'.LeadsTo root dir es'
  wellFormed : fs.root.WellFormed
  wellFormed' : fs'.root.WellFormed

theorem Walks.symm (h : Walks root dir fs fs' es es') : Walks root dir fs' fs es' es :=
  ⟨h.same.symm, h.right, h.left, h.wellFormed', h.wellFormed⟩

theorem Walks.hasTree (h : Walks root dir fs fs' es es') : fs.HasTree root es :=
  FileSystem.hasTree_of_leadsTo h.left h.wellFormed

/-- A file that counts stands in both trees or in neither. -/
theorem Walks.agreeAt_file (h : Walks root dir fs fs' es es') {ns : List Text} {data : FileData}
    (hfind : (Node.directory es).find? ns = some (.file data))
    (hcounts : (entryOf root ns data).counts) : AgreeAt fs fs' (dir ++ ns) := by
  rcases h.same.same (dir ++ ns) with hagree | ⟨below, heq, hplace⟩
  · exact hagree
  · obtain rfl := List.append_cancel_left heq
    have hnames := h.hasTree.wellFormed.areNames hfind
    rw [← FileSystem.nodeAt?_below h.left] at hfind
    obtain ⟨_, ⟨⟩, hsize⟩ := hplace.before _ hfind
    rw [counts_ignoreFile hnames hplace.name hsize] at hcounts
    contradiction

/-- A listed file that counts is listed in the other tree as well. -/
theorem Walks.mem_files (h : Walks root dir fs fs' es es') {f : FileEntry}
    (hf : f ∈ (ofTree fs rules root).files) (hcounts : f.counts) :
    f ∈ (ofTree fs' rules root).files := by
  obtain ⟨ns, data, hfind, hdescends, hreach, hself, rfl⟩ := (mem_listing h.hasTree).mp hf
  refine (mem_listing h.symm.hasTree).mpr ⟨ns, data, ?_, hdescends, hreach, hself, rfl⟩
  have hagree := h.agreeAt_file hfind hcounts
  rw [← FileSystem.nodeAt?_below h.left] at hfind
  rw [← FileSystem.nodeAt?_below h.right]
  exact hagree.file hfind

/-- The two listings have the same files that count, in the same order. -/
theorem Walks.files_eq (h : Walks root dir fs fs' es es') (rules : IgnoreRules) :
    (ofTree fs rules root).files.filter FileEntry.counts =
      (ofTree fs' rules root).files.filter FileEntry.counts := by
  have hsorted : ∀ {fs : FileSystem} {es}, fs.HasTree root es →
      ((ofTree fs rules root).files.filter FileEntry.counts).Pairwise
        fun a b => a.path < b.path := fun h => (sorted_listing h rules).filter _
  have hnodup : ∀ {fs : FileSystem} {es}, fs.HasTree root es →
      ((ofTree fs rules root).files.filter FileEntry.counts).Nodup := by
    intro fs es h
    refine (hsorted h).imp fun {a b} hlt => ?_
    rintro rfl
    exact List.lt_irrefl _ hlt
  have hperm := (List.perm_ext_iff_of_nodup (hnodup h.hasTree) (hnodup h.symm.hasTree)).mpr
    fun f => by
      rw [List.mem_filter, List.mem_filter]
      exact ⟨fun hf => ⟨h.mem_files hf.1 hf.2, hf.2⟩, fun hf => ⟨h.symm.mem_files hf.1 hf.2, hf.2⟩⟩
  exact hperm.eq_of_pairwise (fun _ _ _ _ hlt hgt => absurd hgt (List.lt_asymm hlt))
    (hsorted h.hasTree) (hsorted h.symm.hasTree)

/-- Both walks note the same, as the path of every ignore file can be looked at. -/
theorem Walks.notes_perm (h : Walks root dir fs fs' es es') (rules : IgnoreRules) :
    (ofTree fs rules root).notes.Perm (ofTree fs' rules root).notes := by
  let visited (es : List (Text × Node)) : List Text :=
    ((Node.entriesOf (descends rules root) [] es).map Prod.fst).filter fun p => !reachable root p
  have hnotes : ∀ {fs : FileSystem} {es}, fs.HasTree root es →
      (ofTree fs rules root).notes = (visited es).map fun p =>
        "cannot stat ".ascii ++ p ++ ": ".ascii ++ FileError.nameTooLong.message := by
    intro fs es h
    rw [ofTree_eq h]
    show (Node.entriesOf (descends rules root) [] es).filterMap (note? root) =
      (((Node.entriesOf (descends rules root) [] es).map Prod.fst).filter _).map _
    induction Node.entriesOf (descends rules root) [] es with
    | nil => rfl
    | cons e l ih =>
      cases hreach : reachable root e.1 <;> simp [note?, hreach, ih]
  -- A place that is too long to be read is no place of a file of rules, so it is in both trees.
  have hmem : ∀ {fs fs' : FileSystem} {es es'}, Walks root dir fs fs' es es' →
      ∀ p ∈ visited es, p ∈ visited es' := by
    intro fs fs' es es' h p hp
    obtain ⟨hp, hreach⟩ := List.mem_filter.mp hp
    obtain ⟨⟨_, n⟩, hvisited, rfl⟩ := List.mem_map.mp hp
    obtain ⟨ns, hns, hfind, hdescends, rfl⟩ := (mem_visited h.hasTree).mp hvisited
    rw [← FileSystem.nodeAt?_below h.left] at hfind
    rcases h.same.same (dir ++ ns) with hagree | ⟨below, heq, hplace⟩
    · obtain ⟨m, hm, -⟩ := hagree.node hfind
      rw [FileSystem.nodeAt?_below h.right] at hm
      have hvisited := (mem_visited h.symm.hasTree).mpr ⟨ns, hns, hm, hdescends, rfl⟩
      exact List.mem_filter.mpr ⟨List.mem_map.mpr ⟨_, hvisited, rfl⟩, hreach⟩
    · obtain rfl := List.append_cancel_left heq
      simp [hplace.reachable] at hreach
  rw [hnotes h.hasTree, hnotes h.symm.hasTree]
  refine List.Perm.map _
    ((List.perm_ext_iff_of_nodup ?_ ?_).mpr fun p => ⟨hmem h p, hmem h.symm p⟩)
  · exact (nodup_visited h.hasTree _).filter _
  · exact (nodup_visited h.symm.hasTree _).filter _

/-! ## What is read of the listed files -/

theorem readAll?_of_locate {path : Text} {ns : List Text} {data : FileData}
    (h : fs.locate true path = .ok ⟨ns, some (.file data)⟩) :
    fs.readAll? path = some data.bytes := by
  rw [FileSystem.readAll?, FileSystem.node_of_locate h]

/-- If the path of the root has a zero byte in it, the paths of all files lead to the root. -/
theorem readAll?_of_zero (hroot : fs.LeadsTo root dir es) (hzero : 0 ∈ root) {below : Text}
    (hbelow : Path.isAbsolute below = false) : fs.readAll? (Path.join root below) = some [] := by
  have hlocate : fs.locate true (Path.join root below) = fs.locate true root := by
    rw [FileSystem.locate, FileSystem.locate, Path.before_zero_join hbelow hzero]
  rw [FileSystem.readAll?, FileSystem.node_of_locate (hlocate.trans hroot)]

/-- The two trees have the same contents of every file that counts. -/
theorem Walks.readAll?_eq (h : Walks root dir fs fs' es es') {f : FileEntry}
    (hf : f ∈ (ofTree fs rules root).files) (hcounts : f.counts) :
    fs.readAll? f.fullPath = fs'.readAll? f.fullPath := by
  obtain ⟨ns, data, hfind, -, hreach, -, rfl⟩ := (mem_listing h.hasTree).mp hf
  have hnames := h.hasTree.wellFormed.areNames hfind
  have hne := Node.ne_nil_of_find?_file hfind
  have hagree := h.agreeAt_file hfind hcounts
  rw [← FileSystem.nodeAt?_below h.left] at hfind
  by_cases hzero : 0 ∈ root
  · rw [entryOf, readAll?_of_zero h.left hzero hnames.isAbsolute_ofNames,
      readAll?_of_zero h.right hzero hnames.isAbsolute_ofNames]
  · have hfits := FileSystem.fits_of_leadsTo hzero h.left
    have hlength : (Path.join root (Path.ofNames ns)).length ≤ FileSystem.maxPath := by
      simpa [reachable] using hreach
    have hlink : FileSystem.NoLink (some (.file data)) := by simp [FileSystem.NoLink]
    rw [entryOf, readAll?_of_locate
        (FileSystem.locate_below hfits h.left hnames hne hfind hlink hlength),
      readAll?_of_locate
        (FileSystem.locate_below hfits h.right hnames hne (hagree.file hfind) hlink hlength)]

theorem Walks.load_eq (h : Walks root dir fs fs' es es') (limit : Nat) {f : FileEntry}
    (hf : f ∈ (ofTree fs rules root).files) (hcounts : f.counts) :
    Content.load fs limit f = Content.load fs' limit f := by
  rw [Content.load, Content.load, h.readAll?_eq hf hcounts]

end WalkResult

/-! ## What the passes do -/

theorem filter_eligible_counts (files : List FileEntry) :
    (files.filter FileEntry.counts).filter FileEntry.eligible =
      files.filter FileEntry.eligible := by
  rw [List.filter_filter]
  congr 1
  funext f
  cases h : f.eligible <;> simp [FileEntry.counts, h]

/-- The paths below the root that tell whether there is a history. -/
def Provenance.askedPaths : List Text :=
  [".git", ".git/shallow", "package.json", "setup.py"].map String.ascii

theorem Provenance.flatMap_counts (files : List FileEntry) :
    (files.filter FileEntry.counts).flatMap ofFile = files.flatMap ofFile :=
  flatMap_filter_of_nil fun f _ hf => by simp_all [FileEntry.counts]

/-- Only files that are eligible are taken into account. -/
theorem DependenciesPass.gather_counts (fs : FileSystem) (formats : Formats) (c : Config)
    (files : List FileEntry) :
    (files.filter FileEntry.counts).foldl (addFile fs formats c) start =
      gather fs formats c files := by
  rw [gather, List.foldl_filter]
  refine List.foldl_ext _ _ _ fun p f _ => ?_
  cases hcounts : f.counts with
  | true => rfl
  | false =>
    have heligible : f.eligible = false := by simp_all [FileEntry.counts]
    simp [addFile, heligible]

section Passes

open WalkResult (Walks ofTree)

variable {fs fs' : FileSystem} {root : Text} {dir : List Text} {es es' : List (Text × Node)}
variable (h : Walks root dir fs fs' es es') (rules : IgnoreRules)

include h

theorem Provenance.ofHistory_eq
    (hasked : ∀ path ∈ askedPaths, AgreeOn fs fs' (Path.join root path)) :
    ofHistory fs root = ofHistory fs' root := by
  have hexists : ∀ path ∈ askedPaths,
      fs.pathExists (Path.join root path) = fs'.pathExists (Path.join root path) :=
    fun path hpath => (hasked path hpath).pathExists_eq h.same.sameWays
  simp only [askedPaths, List.map_cons, List.map_nil, List.forall_mem_cons] at hexists
  obtain ⟨hgit, hshallow, hpackage, hsetup, -⟩ := hexists
  simp only [ofHistory, hgit, hshallow, hpackage, hsetup]

theorem Provenance.check_eq
    (hasked : ∀ path ∈ askedPaths, AgreeOn fs fs' (Path.join root path)) :
    check fs root (ofTree fs rules root).files = check fs' root (ofTree fs' rules root).files := by
  rw [check, check, ofHistory_eq h hasked, ← flatMap_counts, h.files_eq, flatMap_counts]

theorem Detection.scanFiles_eq (phases : List Phase) (limit : Nat) :
    scanFiles fs phases limit (ofTree fs rules root).files =
      scanFiles fs' phases limit (ofTree fs' rules root).files := by
  rw [scanFiles, scanFiles, ← filter_eligible_counts (ofTree fs' rules root).files, ← h.files_eq,
    filter_eligible_counts]
  refine List.foldl_ext _ _ _ fun d f hf => ?_
  obtain ⟨hlisted, heligible⟩ := List.mem_filter.mp hf
  have hcounts : f.counts := by simp [FileEntry.counts, heligible]
  rw [scanFile, scanFile, h.load_eq limit hlisted hcounts]

theorem Detection.run_eq
    (hasked : ∀ path ∈ Provenance.askedPaths, AgreeOn fs fs' (Path.join root path))
    (phases : List Phase) (limit : Nat) :
    run fs phases limit root (ofTree fs rules root).files =
      run fs' phases limit root (ofTree fs' rules root).files := by
  rw [run, run, Provenance.check_eq h rules hasked, scanFiles_eq h rules]

theorem DependenciesPass.gather_eq (formats : Formats) (c : Config) :
    gather fs formats c (ofTree fs rules root).files =
      gather fs' formats c (ofTree fs' rules root).files := by
  rw [← gather_counts, ← gather_counts, ← h.files_eq]
  refine List.foldl_ext _ _ _ fun p f hf => ?_
  obtain ⟨hlisted, hcounts⟩ := List.mem_filter.mp hf
  rw [addFile, addFile, h.load_eq c.maxFileBytes hlisted hcounts]

end Passes

theorem Machine.installed?_eq_none {m : Machine} {name : Text} (hpath : m.searchPath? = none)
    (hslash : Byte.slash ∉ name) : m.installed? name = none := by
  simp [installed?, hpath, hslash]

/-- A tool that is not installed is not run. -/
theorem ExternalPass.toolSteps_missing {input : ScanInput} {tool : Tool}
    (h : tool.available input.machine = false) :
    toolSteps input tool =
      ([.log (.debug (tool.name ++ " not found in PATH".ascii)),
        .status tool.component .notInstalled (tool.name ++ " not found in PATH".ascii)], false) := by
  simp [toolSteps, h]

/-! ## Reports up to the fingerprint -/

/-- The report without the digest of the tree. -/
def Report.withoutFingerprint (r : Report) : Report := { r with fingerprint := [] }

namespace Draft

/-- Two drafts that differ in the fingerprint and in the order of notes alone. -/
structure Like (d d' : Draft) : Prop where
  findings : d.findings = d'.findings
  components : d.components = d'.components
  notes : d.notes.Perm d'.notes
  filesScanned : d.filesScanned = d'.filesScanned

variable {d d' : Draft}

theorem Like.apply (h : d.Like d') (e : ReportEvent) : (d.apply e).Like (d'.apply e) := by
  obtain ⟨hfindings, hcomponents, hnotes, hfiles⟩ := h
  cases e with
  | note component message =>
    exact ⟨hfindings, hcomponents, hnotes.append_right _, hfiles⟩
  | started | ended | status | fingerprint | scanned | found =>
    constructor <;> simp_all [Draft.apply, withComponent]

theorem Like.applyAll (h : d.Like d') (events : List ReportEvent) :
    (d.applyAll events).Like (d'.applyAll events) := by
  induction events generalizing d d' with
  | nil => exact h
  | cons e events ih => exact ih (h.apply e)

theorem Like.finalize (h : d.Like d') (item target : Text) (time : Int) :
    (d.finalize item target time).map Report.withoutFingerprint =
      (d'.finalize item target time).map Report.withoutFingerprint := by
  -- Nothing but the report's own fingerprint depends on that of the draft.
  have herase : ∀ d : Draft, (d.finalize item target time).map Report.withoutFingerprint =
      Draft.finalize { d with fingerprint := [] } item target time := by
    intro d
    simp only [Draft.finalize, bind, Except.bind]
    split
    · rfl
    split
    · rfl
    split <;> rfl
  rw [herase, herase]
  apply finalize_congr
  · exact congrArg Finding.sort h.findings
  · exact congrArg sortComponents h.components
  · exact sortNotes_congr h.notes
  · exact h.filesScanned
  · rfl

end Draft

namespace Scanner

/-- What the walker and the fingerprint tell a draft before the passes run. -/
def firstOf (s : Scanner) (t : ScanTarget) : List ReportEvent :=
  firstEvents (WalkResult.ofTree s.machine.files s.ignoreRules t.path).notes
    (Fingerprint.ofTree s.machine.files t.path)

/-- What the passes of a scan are given. -/
def inputOf (s : Scanner) (t : ScanTarget) : ScanInput :=
  s.input t.path (WalkResult.ofTree s.machine.files s.ignoreRules t.path).files
    ((Fingerprint.ofTree s.machine.files t.path).toOption.getD [])

/-- The report of a scan whose passes take their turns in some order. -/
def reportOf (s : Scanner) (t : ScanTarget) (order : List Turn) : Except ScoreError Report :=
  (Pass.draftOf (s.firstOf t) order).finalize t.item t.path s.now

/-- Before the passes, notes alone have been collected. -/
theorem applyAll_firstEvents (notes : List Text) (value : Text) :
    Draft.empty.applyAll (firstEvents notes (.ok value)) =
      { Draft.empty with notes := notes.map (Note.mk "walker".ascii), fingerprint := value } := by
  have hnotes : ∀ (d : Draft), d.applyAll (notes.map (.note "walker".ascii)) =
      { d with notes := d.notes ++ notes.map (Note.mk "walker".ascii) } := by
    induction notes with
    | nil => intro d; simp [Draft.applyAll]
    | cons note notes ih =>
      intro d
      rw [List.map_cons, Draft.applyAll_cons, ih]
      simp [Draft.apply]
  rw [firstEvents, Draft.applyAll, List.foldl_append]
  show ((Draft.empty.applyAll (notes.map (.note "walker".ascii))).apply (.fingerprint value)) = _
  rw [hnotes]
  rfl

/-- What a scan answers once it is known whether there is a report. -/
def answerWith (log : List LogMessage) :
    Except ScoreError Report → List LogMessage × Except ScanError Report
  | .error e => (log, .error (.score e))
  | .ok report => (log ++ [scoreMessage report], .ok report)

/-- The outcome of a scan of a directory, with the passes run one after the other. -/
theorem scan_eq (s : Scanner) (t : ScanTarget) (hdir : s.machine.files.isDirectory t.path) :
    s.scan t =
      let steps := Pass.allSteps s.passes (s.inputOf t)
      answerWith (s.setup ++ PassStep.messages steps)
        (((Draft.empty.applyAll (s.firstOf t)).applyAll (PassStep.events steps)).finalize
          t.item t.path s.now) := by
  rw [scan, hdir]
  rfl

/-- The message about a report does not tell of its fingerprint. -/
theorem answerWith_congr (log : List LogMessage) {x x' : Except ScoreError Report}
    (h : x.map Report.withoutFingerprint = x'.map Report.withoutFingerprint) :
    (answerWith log x).1 = (answerWith log x').1 ∧
      (answerWith log x).2.map Report.withoutFingerprint =
        (answerWith log x').2.map Report.withoutFingerprint := by
  cases x with
  | error e =>
    cases x' with
    | error e' =>
      obtain rfl := Except.error.inj h
      exact ⟨rfl, rfl⟩
    | ok r' => contradiction
  | ok r =>
    cases x' with
    | error e' => contradiction
    | ok r' =>
      have hr : r.withoutFingerprint = r'.withoutFingerprint := Except.ok.inj h
      have hmessage : scoreMessage r = scoreMessage r' :=
        show scoreMessage r.withoutFingerprint = scoreMessage r'.withoutFingerprint by rw [hr]
      exact ⟨congrArg (fun message => log ++ [message]) hmessage, congrArg Except.ok hr⟩

/-- A pass that does the same with either input takes the same turns. -/
theorem isRun_iff {passes : List Pass} {input input' : ScanInput}
    (hconfig : input.config = input'.config) (hnow : input.now = input'.now)
    (hrun : ∀ p ∈ passes, p.run input = p.run input') {order : List Turn} :
    Pass.IsRun passes input order ↔ Pass.IsRun passes input' order := by
  have hturns : ∀ p ∈ passes, p.turns input = p.turns input' := by
    intro p hp
    rw [Pass.turns, Pass.turns, Pass.row, Pass.row, Pass.steps, Pass.steps, hrun p hp, hconfig,
      hnow]
  have hskip : Pass.skipTurns passes input = Pass.skipTurns passes input' := by
    rw [Pass.skipTurns, Pass.skipTurns, hconfig,
      List.map_congr_left fun p hp => hturns p (List.mem_of_mem_filter hp)]
  have hactive : Pass.activeTurns passes input = Pass.activeTurns passes input' := by
    rw [Pass.activeTurns, Pass.activeTurns, hconfig, Pass.active,
      List.map_congr_left fun p hp => hturns p (List.mem_of_mem_filter hp)]
  rw [Pass.IsRun, Pass.IsRun, hskip, hactive, hconfig]

theorem allSteps_congr {passes : List Pass} {input input' : ScanInput}
    (hconfig : input.config = input'.config) (hnow : input.now = input'.now)
    (hrun : ∀ p ∈ passes, p.run input = p.run input') :
    Pass.allSteps passes input = Pass.allSteps passes input' := by
  rw [Pass.allSteps, Pass.allSteps, hconfig]
  refine congrArg (Pass.inactiveSteps input'.config passes ++ ·) (List.flatMap_congr fun p hp => ?_)
  rw [Pass.steps, Pass.steps, hrun p (List.mem_of_mem_filter hp), hnow]

/-- Two scanners give the same answers but for the fingerprint, if they differ in their machines
alone, if what they collect before the passes is alike, and if all passes do the same. -/
theorem scan_like {s s' : Scanner} {t : ScanTarget} (hdir : s.machine.files.isDirectory t.path)
    (hdir' : s'.machine.files.isDirectory t.path) (hconfig : s'.config = s.config)
    (hpasses : s'.passes = s.passes) (hsetup : s'.setup = s.setup) (hnow : s'.now = s.now)
    (hfirst : (Draft.empty.applyAll (s.firstOf t)).Like (Draft.empty.applyAll (s'.firstOf t)))
    (hrun : ∀ p ∈ s.passes, p.run (s.inputOf t) = p.run (s'.inputOf t)) :
    (s.scan t).1 = (s'.scan t).1 ∧
    (s.scan t).2.map Report.withoutFingerprint = (s'.scan t).2.map Report.withoutFingerprint ∧
    ∀ order, (Pass.IsRun s.passes (s.inputOf t) order ↔
        Pass.IsRun s'.passes (s'.inputOf t) order) ∧
      (s.reportOf t order).map Report.withoutFingerprint =
        (s'.reportOf t order).map Report.withoutFingerprint := by
  have hinputs : (s.inputOf t).config = (s'.inputOf t).config := hconfig.symm
  have hnows : (s.inputOf t).now = (s'.inputOf t).now := hnow.symm
  have hsteps := allSteps_congr hinputs hnows hrun
  have hscan := answerWith_congr
    (s.setup ++ PassStep.messages (Pass.allSteps s.passes (s.inputOf t)))
    ((hfirst.applyAll (PassStep.events (Pass.allSteps s.passes (s.inputOf t)))).finalize
      t.item t.path s.now)
  rw [scan_eq s t hdir, scan_eq s' t hdir', hpasses, hsetup, hnow, ← hsteps]
  refine ⟨hscan.1, hscan.2, fun order => ⟨isRun_iff hinputs hnows hrun, ?_⟩⟩
  rw [reportOf, reportOf, hnow, Pass.draftOf, Pass.draftOf, Draft.ofEvents, Draft.ofEvents,
    Draft.applyAll, Draft.applyAll, List.foldl_append, List.foldl_append]
  exact (hfirst.applyAll (Turn.events order)).finalize ..

section Shipped

open WalkResult (Walks ofTree)

variable {m : Machine} {fs' : FileSystem} {c : Config} {programs : Programs} {formats : Formats}
variable {answer : Request → Reply} {now : Int} {t : ScanTarget} {dir : List Text}
variable {es es' : List (Text × Node)}

theorem ignoreRules_onFiles (hways : SameWays m.files fs')
    (hrules : AgreeOn m.files fs' c.ignoreFile) (programs : Programs) (formats : Formats)
    (answer : Request → Reply) (now : Int) :
    (standard m c programs formats answer now).ignoreRules =
      ((standard m c programs formats answer now).onFiles fs').ignoreRules := by
  have hread := hrules.readUpTo?_eq hways IgnoreRules.maxFileSize
  simp only [ignoreRules, standard, onFiles, hread]
  rfl

/-- What is collected before the passes is the same, but for the fingerprint. -/
theorem firstOf_onFiles (h : Walks t.path dir m.files fs' es es')
    (hrules : AgreeOn m.files fs' c.ignoreFile) (programs : Programs) (formats : Formats)
    (answer : Request → Reply) (now : Int) :
    let s := standard m c programs formats answer now
    (Draft.empty.applyAll (s.firstOf t)).Like
      (Draft.empty.applyAll ((s.onFiles fs').firstOf t)) := by
  intro s
  have hignore : s.ignoreRules = (s.onFiles fs').ignoreRules :=
    ignoreRules_onFiles h.same.sameWays hrules programs formats answer now
  have hvalue : ∀ fs : FileSystem, fs.isDirectory t.path →
      Fingerprint.ofTree fs t.path =
        .ok (Fingerprint.ofEntries (Fingerprint.entries fs t.path)) := fun fs hdir => if_pos hdir
  have hfiles : Fingerprint.ofTree s.machine.files t.path = _ :=
    hvalue m.files h.hasTree.isDirectory
  have hfiles' : Fingerprint.ofTree (s.onFiles fs').machine.files t.path = _ :=
    hvalue fs' h.symm.hasTree.isDirectory
  rw [firstOf, firstOf, ← hignore, hfiles, hfiles', applyAll_firstEvents, applyAll_firstEvents]
  exact ⟨rfl, rfl, (h.notes_perm s.ignoreRules).map _, rfl⟩

/-- No tool is there to be run, so none looks at the tree. -/
theorem external_onFiles
    (htools : ∀ a ∈ Adapter.known c.externalTools,
      m.installed? a.name = none ∧ ({ m with files := fs' } : Machine).installed? a.name = none)
    (programs : Programs) (formats : Formats) (answer : Request → Reply) (now : Int)
    (t : ScanTarget) :
    let tools := (Adapter.known c.externalTools).map fun a => a.tool programs formats
    let s := standard m c programs formats answer now
    ExternalPass.steps (s.inputOf t) tools =
      ExternalPass.steps ((s.onFiles fs').inputOf t) tools := by
  intro tools s
  have htool : ∀ tool ∈ tools, ExternalPass.toolSteps (s.inputOf t) tool =
      ExternalPass.toolSteps ((s.onFiles fs').inputOf t) tool := by
    intro tool htool
    obtain ⟨a, ha, rfl⟩ := List.mem_map.mp htool
    obtain ⟨hnone, hnone'⟩ := htools a ha
    have hmissing : ∀ m : Machine, m.installed? a.name = none →
        (a.tool programs formats).available m = false := fun m hm => by simp [Adapter.tool, hm]
    exact (ExternalPass.toolSteps_missing (hmissing _ hnone)).trans
      (ExternalPass.toolSteps_missing (hmissing _ hnone')).symm
  rw [ExternalPass.steps, ExternalPass.steps, List.map_congr_left htool]

/-- The service is not asked. -/
theorem cloud_skipped {input : ScanInput} (h : input.config.offline) :
    CloudPass.steps answer input = [.status CloudPass.name .skipped "offline".ascii] := by
  rw [CloudPass.steps, if_pos h]

/-- The four passes do the same on both trees. -/
theorem run_onFiles (h : Walks t.path dir m.files fs' es es') (hoffline : c.offline)
    (htools : ∀ a ∈ Adapter.known c.externalTools,
      m.installed? a.name = none ∧ ({ m with files := fs' } : Machine).installed? a.name = none)
    (hasked : ∀ path ∈ Provenance.askedPaths, AgreeOn m.files fs' (Path.join t.path path))
    (hrules : AgreeOn m.files fs' c.ignoreFile)
    (programs : Programs) (formats : Formats) (answer : Request → Reply) (now : Int) {p : Pass}
    (hp : p ∈ standardPasses c programs formats answer) :
    let s := standard m c programs formats answer now
    p.run (s.inputOf t) = p.run ((s.onFiles fs').inputOf t) := by
  intro s
  have hsame : s.ignoreRules = (s.onFiles fs').ignoreRules :=
    ignoreRules_onFiles h.same.sameWays hrules programs formats answer now
  simp only [standardPasses, List.mem_cons, List.not_mem_nil, or_false] at hp
  rcases hp with rfl | rfl | rfl | rfl
  · have hrun := Detection.run_eq h s.ignoreRules hasked c.phases c.maxFileBytes
    show PassRun.ofSteps (PhasesPass.steps _) = PassRun.ofSteps (PhasesPass.steps _)
    refine congrArg (fun d => PassRun.ofSteps (PhasesPass.steps d)) (hrun.trans ?_)
    rw [hsame]
    rfl
  · exact congrArg PassRun.ofSteps (external_onFiles htools programs formats answer now t)
  · have hgather := DependenciesPass.gather_eq h s.ignoreRules formats c
    refine congrArg (fun p => PassRun.ofSteps (DependenciesPass.steps p)) (hgather.trans ?_)
    rw [hsame]
    rfl
  · have hskipped : CloudPass.steps answer (s.inputOf t) = _ := cloud_skipped hoffline
    have hskipped' : CloudPass.steps answer ((s.onFiles fs').inputOf t) = _ :=
      cloud_skipped hoffline
    exact congrArg PassRun.ofSteps (hskipped.trans hskipped'.symm)

/-- **The ignore files of a tree have no influence on what is reported of it.** Two trees that
differ in files of that name alone give the same reports, but for the fingerprint, and the same
log, whatever turns the passes take. The rules and all other settings are arbitrary, as long as the
service is not asked and no tool is installed. No path that a scan follows by itself may lead to an
ignore file that differs: neither that of the user's own rules, nor one of the four that tell
whether there is a history. -/
theorem scan_shippedRules (hroot : m.files.LeadsTo t.path dir es)
    (hsame : FileSystem.SameButRules t.path dir m.files fs')
    (hwell : m.files.root.WellFormed) (hwell' : fs'.root.WellFormed) (hoffline : c.offline)
    (htools : ∀ a ∈ Adapter.known c.externalTools,
      m.installed? a.name = none ∧ ({ m with files := fs' } : Machine).installed? a.name = none)
    (hrules : AgreeOn m.files fs' c.ignoreFile)
    (hasked : ∀ path ∈ Provenance.askedPaths, AgreeOn m.files fs' (Path.join t.path path))
    (programs : Programs) (formats : Formats) (answer : Request → Reply) (now : Int) :
    let s := standard m c programs formats answer now
    let s' := s.onFiles fs'
    (s.scan t).1 = (s'.scan t).1 ∧
    (s.scan t).2.map Report.withoutFingerprint = (s'.scan t).2.map Report.withoutFingerprint ∧
    ∀ order, (Pass.IsRun s.passes (s.inputOf t) order ↔
        Pass.IsRun s'.passes (s'.inputOf t) order) ∧
      (s.reportOf t order).map Report.withoutFingerprint =
        (s'.reportOf t order).map Report.withoutFingerprint := by
  intro s s'
  obtain ⟨es', hroot'⟩ := hsame.leadsTo hroot
  have h : Walks t.path dir m.files fs' es es' := ⟨hsame, hroot, hroot', hwell, hwell'⟩
  have hrun : ∀ p ∈ s.passes, p.run (s.inputOf t) = p.run (s'.inputOf t) := fun p hp =>
    run_onFiles h hoffline htools hasked hrules programs formats answer now hp
  have hfirst : (Draft.empty.applyAll (s.firstOf t)).Like
      (Draft.empty.applyAll (s'.firstOf t)) :=
    firstOf_onFiles h hrules programs formats answer now
  exact scan_like h.hasTree.isDirectory h.symm.hasTree.isDirectory rfl rfl rfl rfl hfirst hrun

end Shipped

/-! ## A tree that gets an ignore file -/

/-- Files with a tree of these entries, and with rules beside it. -/
def withTree (es : List (Text × Node)) : FileSystem :=
  ⟨.directory [("w".ascii, .directory es), ("rules".ascii, .file ⟨"*.md".ascii, 0, false⟩)], []⟩

theorem withTree_wellFormed {es : List (Text × Node)} (hunique : (es.map Prod.fst).Nodup)
    (hnames : ∀ name ∈ es.map Prod.fst, IsName name)
    (hleaf : ∀ e ∈ es, ∀ es', e.2 ≠ .directory es') : (withTree es).root.WellFormed := by
  have htree : (Node.directory es).WellFormed := Node.wellFormed_directory hunique fun e he =>
    ⟨hnames _ (List.mem_map_of_mem he), Node.wellFormed_leaf (hleaf e he)⟩
  have hroots : ["w".ascii, "rules".ascii].Nodup := by decide
  refine Node.wellFormed_directory hroots ?_
  simp only [List.forall_mem_cons]
  exact ⟨⟨by decide, htree⟩, ⟨by decide, Node.wellFormed_leaf (by simp)⟩, List.forall_mem_nil _⟩

/-- Files with a source file in the tree. -/
def plainFiles : FileSystem := withTree [("a.py".ascii, .file ⟨"x".ascii, 0, false⟩)]

/-- The same files with rules in the tree that exclude everything. -/
def rulesAdded : FileSystem :=
  plainFiles.setAt ["w".ascii, ignoreFileName] (some (.file ⟨"*".ascii, 0, false⟩))

theorem rulesAdded_eq : rulesAdded =
    withTree [("a.py".ascii, .file ⟨"x".ascii, 0, false⟩),
      (ignoreFileName, .file ⟨"*".ascii, 0, false⟩)] := rfl

theorem agreeOn_of_missing {fs fs' : FileSystem} {path : Text} (h : fs.pathExists path = false)
    (h' : fs'.pathExists path = false) : AgreeOn fs fs' path := by
  have hnone : ∀ {fs : FileSystem}, fs.pathExists path = false → ∀ ns n,
      fs.locate true path ≠ .ok ⟨ns, some n⟩ := by
    intro fs h ns n hlocate
    rw [FileSystem.pathExists, FileSystem.node_of_locate hlocate] at h
    contradiction
  exact ⟨fun ns n hn => absurd hn (hnone h ns n), fun ns n hn => absurd hn (hnone h' ns n)⟩

theorem agreeOn_rules : AgreeOn plainFiles rulesAdded "rules".ascii := by
  have hplain : plainFiles.locate true "rules".ascii =
      .ok ⟨["rules".ascii], some (.file ⟨"*.md".ascii, 0, false⟩)⟩ := by cbv
  have hadded : rulesAdded.locate true "rules".ascii =
      .ok ⟨["rules".ascii], some (.file ⟨"*.md".ascii, 0, false⟩)⟩ := by cbv
  have hagree : AgreeAt plainFiles rulesAdded ["rules".ascii] :=
    FileSystem.agreeAt_setAt (by decide) _ _
  constructor
  · intro ns n hn
    obtain ⟨rfl, -⟩ := Location.mk.inj (Except.ok.inj (hplain.symm.trans hn))
    exact hagree
  · intro ns n hn
    obtain ⟨rfl, -⟩ := Location.mk.inj (Except.ok.inj (hadded.symm.trans hn))
    exact hagree

theorem agreeOn_askedPaths : ∀ path ∈ Provenance.askedPaths,
    AgreeOn plainFiles rulesAdded (Path.join "w".ascii path) := by
  simp only [Provenance.askedPaths, List.map_cons, List.map_nil, List.forall_mem_cons]
  exact ⟨agreeOn_of_missing (by cbv) (by cbv), agreeOn_of_missing (by cbv) (by cbv),
    agreeOn_of_missing (by cbv) (by cbv), agreeOn_of_missing (by cbv) (by cbv),
    List.forall_mem_nil _⟩

/-- The settings of a user with rules of their own. -/
def userRules : Config := { offline := true, ignoreFile := "rules".ascii }

theorem scan_shippedRules_rulesAdded :
    let s := standard ⟨plainFiles, []⟩ userRules Shell.programs Formats.none
      (fun _ => .error Exchange.noReply) 0
    let t : ScanTarget := ⟨"w".ascii, "item".ascii⟩
    (s.scan t).2.map Report.withoutFingerprint =
      ((s.onFiles rulesAdded).scan t).2.map Report.withoutFingerprint := by
  have hroot : plainFiles.LeadsTo "w".ascii ["w".ascii]
      [("a.py".ascii, .file ⟨"x".ascii, 0, false⟩)] := by cbv
  have hdir : plainFiles.nodeAt? (["w".ascii] ++ []) =
      some (.directory [("a.py".ascii, .file ⟨"x".ascii, 0, false⟩)]) := rfl
  have hsame : FileSystem.SameButRules "w".ascii ["w".ascii] plainFiles rulesAdded :=
    FileSystem.sameButRules_setAt hdir (fun _ hn => by contradiction) (by decide) (by decide)
  have hslash : ∀ a ∈ Adapter.known userRules.externalTools, Byte.slash ∉ a.name := by decide
  have htools : ∀ a ∈ Adapter.known userRules.externalTools,
      (⟨plainFiles, []⟩ : Machine).installed? a.name = none ∧
        (⟨rulesAdded, []⟩ : Machine).installed? a.name = none := fun a ha =>
    ⟨Machine.installed?_eq_none rfl (hslash a ha),
      Machine.installed?_eq_none rfl (hslash a ha)⟩
  have hwell : plainFiles.root.WellFormed :=
    withTree_wellFormed (by decide) (by decide) (by simp)
  have hwell' : rulesAdded.root.WellFormed := by
    rw [rulesAdded_eq]
    exact withTree_wellFormed (by decide) (by decide) (by simp)
  exact (scan_shippedRules hroot hsame hwell hwell' rfl htools agreeOn_rules agreeOn_askedPaths
    Shell.programs Formats.none (fun _ => .error Exchange.noReply) 0).2.1

/-! ## Ignore files that count -/

/-- A scanner without tools, service and rules. -/
def offlineScanner (fs : FileSystem) : Scanner :=
  standard ⟨fs, []⟩ { offline := true, externalTools := [] } Shell.programs Formats.none
    (fun _ => .error Exchange.noReply) 0

/-- Such a scanner that is told whether to keep its reports, and in which directory. -/
def offlineKeeper (persistReports : Bool) (reportDir : Text) (fs : FileSystem) : Scanner :=
  standard ⟨fs, []⟩ { offline := true, externalTools := [], persistReports, reportDir }
    Shell.programs Formats.none (fun _ => .error Exchange.noReply) 0

/-- If no listed file counts, what is found is what the history tells, and no pass has a note. -/
theorem events_of_uncounted (keeps : Bool) (reportDir : Text) {fs : FileSystem} {t : ScanTarget}
    (h : ∀ f ∈ (WalkResult.ofTree fs [] t.path).files, f.counts = false) :
    let s := offlineKeeper keeps reportDir fs
    let events := PassStep.events (Pass.allSteps s.passes (s.inputOf t))
    events.flatMap ReportEvent.findings = Finding.sort (Provenance.ofHistory fs t.path) ∧
      events.filterMap ReportEvent.note? = [] := by
  intro s
  have hnone : (WalkResult.ofTree fs [] t.path).files.filter FileEntry.counts = [] :=
    List.filter_eq_nil_iff.mpr fun f hf => by simp [h f hf]
  have hdetection : Detection.run fs [] s.config.maxFileBytes t.path
      (WalkResult.ofTree fs [] t.path).files =
        ⟨Finding.sort (Provenance.ofHistory fs t.path), [], 0⟩ := by
    rw [Detection.run, Provenance.check, ← Provenance.flatMap_counts, Detection.scanFiles,
      ← filter_eligible_counts, hnone]
    simp [Detection.empty, Phase.selected]
  have hgather : DependenciesPass.gather fs Formats.none s.config
      (WalkResult.ofTree fs [] t.path).files = DependenciesPass.start := by
    rw [← DependenciesPass.gather_counts, hnone]
    rfl
  have hphases : phasesPass.run (s.inputOf t) = .ofSteps (PhasesPass.steps
      ⟨Finding.sort (Provenance.ofHistory fs t.path), [], 0⟩) :=
    congrArg (fun d => PassRun.ofSteps (PhasesPass.steps d)) hdetection
  have hdependencies : dependenciesPass.run (s.inputOf t) =
      .ofSteps (DependenciesPass.steps DependenciesPass.start) :=
    congrArg (fun p => PassRun.ofSteps (DependenciesPass.steps p)) hgather
  have hall : Pass.allSteps s.passes (s.inputOf t) = phasesPass.steps (s.inputOf t) ++
      ((externalPass []).steps (s.inputOf t) ++ (dependenciesPass.steps (s.inputOf t) ++
        ((cloudPass fun _ => .error Exchange.noReply).steps (s.inputOf t) ++ []))) := rfl
  rw [hall, Pass.steps, Pass.steps, Pass.steps, Pass.steps, hphases, hdependencies]
  exact ⟨List.append_nil _, rfl⟩

/-- Such a scan answers a report of what the history tells, with the notes of the walk. -/
theorem scan_keeper_of_uncounted (keeps : Bool) (reportDir : Text) {fs : FileSystem}
    {t : ScanTarget} (hdir : fs.isDirectory t.path)
    (h : ∀ f ∈ (WalkResult.ofTree fs [] t.path).files, f.counts = false) :
    ∃ r, ((offlineKeeper keeps reportDir fs).scan t).2 = .ok r ∧
      r.findings.Perm (Provenance.ofHistory fs t.path) ∧
      r.notes.Perm ((WalkResult.ofTree fs [] t.path).notes.map (Note.mk "walker".ascii)) := by
  let s := offlineKeeper keeps reportDir fs
  obtain ⟨hfound, hnoted⟩ := events_of_uncounted keeps reportDir h
  have hvalue : Fingerprint.ofTree s.machine.files t.path =
      .ok (Fingerprint.ofEntries (Fingerprint.entries fs t.path)) := if_pos hdir
  let d := (Draft.empty.applyAll (s.firstOf t)).applyAll
    (PassStep.events (Pass.allSteps s.passes (s.inputOf t)))
  have hfindings : d.findings = Finding.sort (Provenance.ofHistory fs t.path) := by
    rw [Draft.findings_applyAll, firstOf, hvalue, applyAll_firstEvents]
    exact hfound
  have hnotes : d.notes =
      (WalkResult.ofTree fs [] t.path).notes.map (Note.mk "walker".ascii) := by
    rw [Draft.notes_applyAll, firstOf, hvalue, applyAll_firstEvents, hnoted, List.append_nil]
    rfl
  have hperm : (Finding.sort d.findings).Perm (Provenance.ofHistory fs t.path) := by
    rw [hfindings]
    exact (Finding.perm_sort _).trans (Finding.perm_sort _)
  have hscore : ∃ score, Score.compute (Provenance.ofHistory fs t.path) = .ok score := by
    simp only [Provenance.ofHistory]
    split
    · split <;> exact ⟨_, rfl⟩
    · split <;> exact ⟨_, rfl⟩
  obtain ⟨score, hscore⟩ := hscore
  obtain ⟨r, hr, -⟩ := Draft.finalize_of_compute ((Score.compute_eq_ok_perm hperm).mpr hscore)
    t.item t.path 0
  refine ⟨r, ?_, (Draft.findings_of_finalize hr) ▸ hperm, ?_⟩
  · refine (congrArg Prod.snd (scan_eq s t hdir)).trans ?_
    show (answerWith _ (d.finalize t.item t.path 0)).2 = .ok r
    rw [hr]
    rfl
  · rw [Draft.notes_of_finalize hr, ← hnotes]
    exact List.mergeSort_perm _ _

theorem scan_of_uncounted {fs : FileSystem} {t : ScanTarget} (hdir : fs.isDirectory t.path)
    (h : ∀ f ∈ (WalkResult.ofTree fs [] t.path).files, f.counts = false) :
    ∃ r, ((offlineScanner fs).scan t).2 = .ok r ∧
      r.findings.Perm (Provenance.ofHistory fs t.path) ∧
      r.notes.Perm ((WalkResult.ofTree fs [] t.path).notes.map (Note.mk "walker".ascii)) :=
  scan_keeper_of_uncounted true [] hdir h

/-- Files with a tree in which the description of a package is a link to an ignore file. -/
def linkingFiles : FileSystem := withTree [("setup.py".ascii, .link ".sigilignore".ascii)]

/-- The same files with the ignore file. -/
def linkedRules : FileSystem :=
  linkingFiles.setAt ["w".ascii, ignoreFileName] (some (.file ⟨"*".ascii, 0, false⟩))

theorem linkedRules_eq : linkedRules =
    withTree [("setup.py".ascii, .link ".sigilignore".ascii),
      (ignoreFileName, .file ⟨"*".ascii, 0, false⟩)] := rfl

/-- Files with an empty tree. -/
def emptyTree : FileSystem := withTree []

/-- A tree with an ignore file alone. -/
def rulesAlone : FileSystem :=
  emptyTree.setAt ["w".ascii, ignoreFileName] (some (.file ⟨"*".ascii, 0, false⟩))

theorem rulesAlone_eq : rulesAlone =
    withTree [(ignoreFileName, .file ⟨"*".ascii, 0, false⟩)] := rfl

theorem uncounted_of_hasTree {fs : FileSystem} {root : Text} {es : List (Text × Node)}
    (h : fs.HasTree root es)
    (hfiles : ∀ f ∈ (Node.entriesOf (WalkResult.descends [] root) [] es).filterMap
      (WalkResult.file? [] root), f.counts = false) :
    ∀ f ∈ (WalkResult.ofTree fs [] root).files, f.counts = false := by
  intro f hf
  rw [WalkResult.ofTree_eq h] at hf
  exact hfiles f ((List.mergeSort_perm _ _).mem_iff.mp hf)

/-- A path of the tree, so long that the path of its ignore file is too long. -/
def longPath : Text := Path.dotted 2042 "w".ascii

theorem isName_w : IsName "w".ascii := by decide

theorem leadsTo_longPath {fs : FileSystem} {es : List (Text × Node)}
    (hstart : fs.workingDirectory = []) (hdir : fs.nodeAt? ["w".ascii] = some (.directory es)) :
    fs.LeadsTo longPath ["w".ascii] es :=
  FileSystem.leadsTo_dotted isName_w (by decide) hstart hdir

theorem reachable_longPath : WalkResult.reachable longPath ignoreFileName = false := by
  have hname : IsName ignoreFileName := by decide
  have hjoin := Path.le_length_join longPath hname
  have hlength : longPath.length = 2 * 2042 + 1 := Path.length_dotted 2042 "w".ascii
  have hlast : ignoreFileName.length = 12 := rfl
  have hmax : FileSystem.maxPath = 4095 := rfl
  rw [WalkResult.reachable, decide_eq_false_iff_not]
  omega

theorem ofHistory_linkingFiles : Provenance.ofHistory linkingFiles "w".ascii = [] := by
  have hgit : linkingFiles.pathExists (Path.join "w".ascii ".git".ascii) = false := by cbv
  have hpackage : linkingFiles.pathExists (Path.join "w".ascii "package.json".ascii) = false := by
    cbv
  have hsetup : linkingFiles.pathExists (Path.join "w".ascii "setup.py".ascii) = false := by cbv
  simp [Provenance.ofHistory, hgit, hpackage, hsetup]

theorem ofHistory_linkedRules : Provenance.ofHistory linkedRules "w".ascii =
    [RuleTable.missingHistory.finding ".".ascii none
      "No .git directory, provenance cannot be verified from history".ascii] := by
  have hgit : linkedRules.pathExists (Path.join "w".ascii ".git".ascii) = false := by cbv
  have hsetup : linkedRules.pathExists (Path.join "w".ascii "setup.py".ascii) = true := by cbv
  simp [Provenance.ofHistory, hgit, hsetup]

theorem hasTree_withTree {root : Text} {es : List (Text × Node)}
    (hroot : (withTree es).LeadsTo root ["w".ascii] es) (hunique : (es.map Prod.fst).Nodup)
    (hnames : ∀ name ∈ es.map Prod.fst, IsName name)
    (hleaf : ∀ e ∈ es, ∀ es', e.2 ≠ .directory es') : (withTree es).HasTree root es :=
  FileSystem.hasTree_of_leadsTo hroot (withTree_wellFormed hunique hnames hleaf)

/-- Two ignore files that do count. A link points to the first: with it, the tree has the
description of a package, and no history. The path of the second is too long for the system. -/
theorem shippedRules_count :
    (∃ r r', ((offlineScanner linkingFiles).scan ⟨"w".ascii, "item".ascii⟩).2 = .ok r ∧
      ((offlineScanner linkedRules).scan ⟨"w".ascii, "item".ascii⟩).2 = .ok r' ∧
      r.findings = [] ∧ r'.findings.map Finding.rule = ["PROV-006".ascii]) ∧
    ∃ r r', ((offlineScanner emptyTree).scan ⟨longPath, "item".ascii⟩).2 = .ok r ∧
      ((offlineScanner rulesAlone).scan ⟨longPath, "item".ascii⟩).2 = .ok r' ∧
      r.notes = [] ∧ r'.notes =
        [⟨"walker".ascii, "cannot stat .sigilignore: File name too long".ascii⟩] := by
  constructor
  · have htree : linkingFiles.HasTree "w".ascii
        [("setup.py".ascii, .link ".sigilignore".ascii)] :=
      hasTree_withTree (by cbv) (by decide) (by decide) (by simp)
    have htree' : linkedRules.HasTree "w".ascii
        [("setup.py".ascii, .link ".sigilignore".ascii),
          (ignoreFileName, .file ⟨"*".ascii, 0, false⟩)] := by
      rw [linkedRules_eq]
      exact hasTree_withTree (by cbv) (by decide) (by decide) (by simp)
    obtain ⟨r, hscan, hr, -⟩ := scan_of_uncounted (t := ⟨"w".ascii, "item".ascii⟩)
      htree.isDirectory (uncounted_of_hasTree htree (by decide +kernel))
    obtain ⟨r', hscan', hr', -⟩ := scan_of_uncounted (t := ⟨"w".ascii, "item".ascii⟩)
      htree'.isDirectory (uncounted_of_hasTree htree' (by decide +kernel))
    refine ⟨r, r', hscan, hscan', ?_, ?_⟩
    · exact (hr.trans (.of_eq ofHistory_linkingFiles)).eq_nil
    · rw [ofHistory_linkedRules, List.perm_singleton] at hr'
      rw [hr']
      rfl
  · have htree : emptyTree.HasTree longPath [] :=
      hasTree_withTree (leadsTo_longPath rfl rfl) (by decide) (by decide) (by simp)
    have htree' : rulesAlone.HasTree longPath [(ignoreFileName, .file ⟨"*".ascii, 0, false⟩)] := by
      rw [rulesAlone_eq]
      exact hasTree_withTree (leadsTo_longPath rfl rfl) (by decide) (by decide) (by simp)
    have hentries : Node.entriesOf (WalkResult.descends [] longPath) []
        [(ignoreFileName, .file ⟨"*".ascii, 0, false⟩)] =
          [(ignoreFileName, .file ⟨"*".ascii, 0, false⟩)] := by
      have hjoin : Path.join [] ignoreFileName = ignoreFileName := rfl
      simp [Node.entriesOf, Node.entriesBelow, hjoin]
    have hfiles : ∀ f ∈ (Node.entriesOf (WalkResult.descends [] longPath) []
        [(ignoreFileName, .file ⟨"*".ascii, 0, false⟩)]).filterMap (WalkResult.file? [] longPath),
          f.counts = false := by
      rw [hentries]
      simp [WalkResult.file?, reachable_longPath]
    have hnotes : (WalkResult.ofTree emptyTree [] longPath).notes = [] := by
      rw [WalkResult.ofTree_eq htree]
      rfl
    have hnotes' : (WalkResult.ofTree rulesAlone [] longPath).notes =
        ["cannot stat .sigilignore: File name too long".ascii] := by
      rw [WalkResult.ofTree_eq htree', hentries]
      simp only [WalkResult.note?, reachable_longPath, List.filterMap_cons, List.filterMap_nil]
      rfl
    obtain ⟨r, hscan, -, hr⟩ := scan_of_uncounted (t := ⟨longPath, "item".ascii⟩)
      htree.isDirectory (uncounted_of_hasTree htree (List.forall_mem_nil _))
    obtain ⟨r', hscan', -, hr'⟩ := scan_of_uncounted (t := ⟨longPath, "item".ascii⟩)
      htree'.isDirectory (uncounted_of_hasTree htree' hfiles)
    refine ⟨r, r', hscan, hscan', ?_, ?_⟩
    · rw [hnotes] at hr
      exact hr.eq_nil
    · rw [hnotes'] at hr'
      exact List.perm_singleton.mp hr'

end Scanner

end Triage
