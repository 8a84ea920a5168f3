import Mathlib
import Triage.Proofs.FileSystem.Following
import Triage.Tool.Adapter

/-!
Which file is started for a tool.

A tool counts as installed if the search path leads to it from the working directory of the
scanner, and it is started by a search along the same path from the directory that is scanned.
Absolute entries lead both searches to the same files (`locate_of_isAbsolute`). So they part only
over the entries that are empty or relative and stand before the first absolute one with the tool:
the detours. What is started is what the first detour leads to from the scanned directory, and
without one what the absolute entries lead to (`started?_eq`); that need not be the file that was
found, and the scanned directory may hold it (`scannedFile_started`).
-/

namespace Triage

/-! ## Absolute paths -/

namespace FileSystem

variable {fs fs' : FileSystem} {path : Text}

/-- Only relative paths depend on the working directory. -/
theorem follow_of_root_eq (h : fs'.root = fs.root) (followLast : Bool) (links : Nat)
    (here todo : List Text) :
    fs'.follow followLast links here todo = fs.follow followLast links here todo := by
  have hnode (ns : List Text) : fs'.nodeAt? ns = fs.nodeAt? ns := by rw [nodeAt?, nodeAt?, h]
  have hdirectory (ns : List Text) : fs'.isDirectoryAt ns = fs.isDirectoryAt ns := by
    rw [isDirectoryAt, isDirectoryAt, hnode]
  fun_induction follow fs followLast links here todo with
  | case1 => rw [follow, hnode]
  | case10 here other rest hdir hdot hdots hlength target hentry hlast links start ih =>
    rw [follow, hdirectory, if_neg hdir, if_neg hdot, if_neg hdots, if_neg hlength, hnode, hentry]
    simp only [hlast, Bool.false_eq_true, if_false]
    exact ih
  | case11 links here other rest hdir hdot hdots hlength n hn hentry ih =>
    rw [follow, hdirectory, if_neg hdir, if_neg hdot, if_neg hdots, if_neg hlength, hnode, hentry]
    cases n with
    | link target => exact absurd rfl (hn target)
    | file | directory | pipe => exact ih
  | _ => rw [follow]; simp only [*, if_true, if_false, Bool.false_eq_true]

theorem locate_of_isAbsolute (h : fs'.root = fs.root) (hpath : Path.isAbsolute path)
    (followLast : Bool) : fs'.locate followLast path = fs.locate followLast path := by
  have hbefore : Path.isAbsolute (Text.before 0 path) := by
    obtain ⟨rest, rfl⟩ := List.head?_eq_some_iff.mp (eq_of_beq hpath)
    rfl
  simp only [locate, hbefore, if_true, follow_of_root_eq h]

theorem isExecutableFile_of_isAbsolute (h : fs'.root = fs.root) (hpath : Path.isAbsolute path) :
    fs'.isExecutableFile path = fs.isExecutableFile path := by
  simp only [isExecutableFile, node, locate_of_isAbsolute h hpath]

/-- The names from the root of what a path leads to. -/
def place? (fs : FileSystem) (path : Text) : Option (List Text) :=
  match fs.locate true path with
  | .ok found => some found.names
  | .error _ => none

theorem place?_of_isAbsolute (h : fs'.root = fs.root) (hpath : Path.isAbsolute path) :
    fs'.place? path = fs.place? path := by
  rw [place?, place?, locate_of_isAbsolute h hpath]

/-- Another working directory leaves the tree as it is. -/
theorem root_of_enter? (h : fs.enter? path = some fs') : fs'.root = fs.root := by
  unfold enter? at h
  split at h
  · rw [← Option.some.inj h]
  · contradiction

end FileSystem

/-! ## The two searches -/

namespace Machine

open Triage.Path (isAbsolute)

variable {m inside : Machine} {name dir : Text} {dirs : List Text}

/-- The entries of the search path after which a program is started. -/
def entries (m : Machine) : List Text := searched (m.searchPath?.getD standardPath)

theorem isAbsolute_candidate (name : Text) (h : isAbsolute dir) :
    isAbsolute (candidate name dir) := by
  obtain ⟨rest, rfl⟩ := List.head?_eq_some_iff.mp (eq_of_beq h)
  rfl

/-- The candidates under entries that are not absolute, as far as no absolute entry holds the
program. -/
def detoursIn (installed : Text → Bool) (name : Text) : List Text → List Text
  | [] => []
  | dir :: rest =>
    if isAbsolute dir then
      if installed (candidate name dir) then [] else detoursIn installed name rest
    else candidate name dir :: detoursIn installed name rest

/-- The ways to a program that depend on the working directory and are tried before the first one
that does not and leads to it. -/
def detours (m : Machine) (name : Text) : List Text :=
  detoursIn m.files.isExecutableFile name m.entries

/-- The first candidate under an absolute entry that is the program. -/
def absoluteIn? (installed : Text → Bool) (name : Text) (dirs : List Text) : Option Text :=
  ((dirs.filter isAbsolute).map (candidate name)).find? installed

def absoluteWay? (m : Machine) (name : Text) : Option Text :=
  absoluteIn? m.files.isExecutableFile name m.entries

/-- A search for which absolute candidates count as in another one finds the first detour that
leads to a program, else what the absolute entries lead to. -/
theorem find?_candidates {here there : Text → Bool} (name : Text)
    (h : ∀ path, isAbsolute path → there path = here path) (dirs : List Text) :
    (dirs.map (candidate name)).find? there =
      ((detoursIn here name dirs).find? there).or (absoluteIn? here name dirs) := by
  induction dirs with
  | nil => rfl
  | cons dir rest ih =>
    rw [List.map_cons, List.find?_cons]
    by_cases habsolute : isAbsolute dir
    · have hsame := h _ (isAbsolute_candidate name habsolute)
      rw [detoursIn, if_pos habsolute, absoluteIn?, List.filter_cons_of_pos habsolute,
        List.map_cons, List.find?_cons, hsame]
      cases here (candidate name dir) with
      | true => rfl
      | false => exact ih
    · rw [detoursIn, if_neg habsolute, absoluteIn?, List.filter_cons_of_neg habsolute,
        List.find?_cons]
      cases there (candidate name dir) with
      | true => rfl
      | false => exact ih

/-- Without detours the program is found under an absolute entry, if at all. -/
theorem find?_of_detoursIn_eq_nil {here : Text → Bool} (h : detoursIn here name dirs = []) :
    ((dirs.filter fun dir => !dir.isEmpty).map (candidate name)).find? here =
      absoluteIn? here name dirs := by
  induction dirs with
  | nil => rfl
  | cons dir rest ih =>
    by_cases habsolute : isAbsolute dir
    · have hnonempty : (!dir.isEmpty) = true := by
        obtain ⟨rest, rfl⟩ := List.head?_eq_some_iff.mp (eq_of_beq habsolute)
        rfl
      rw [detoursIn, if_pos habsolute] at h
      rw [absoluteIn?, List.filter_cons_of_pos habsolute,
        @List.filter_cons_of_pos _ (fun dir : Text => !dir.isEmpty) _ _ hnonempty,
        List.map_cons, List.find?_cons, List.map_cons, List.find?_cons]
      cases hhere : here (candidate name dir) with
      | true => rfl
      | false => exact ih (by simpa [hhere] using h)
    · rw [detoursIn, if_neg habsolute] at h
      contradiction

/-- The file that is started for a name: the first detour that leads to one from the working
directory, else the first absolute entry with one. -/
theorem started?_eq (hname : name ≠ []) (hslash : Byte.slash ∉ name)
    (hroot : inside.files.root = m.files.root) (henvironment : inside.environment = m.environment) :
    inside.started? name =
      ((m.detours name).find? inside.files.isExecutableFile).or (m.absoluteWay? name) := by
  have hentries : inside.entries = m.entries := by
    rw [entries, entries, searchPath?, searchPath?, valueOf?, valueOf?, henvironment]
  have hempty : name.isEmpty = false := List.isEmpty_eq_false_iff.mpr hname
  have hcontains : name.contains Byte.slash = false := by simpa using hslash
  rw [started?, hempty, hcontains, if_neg Bool.false_ne_true, if_neg Bool.false_ne_true]
  change (inside.entries.map (candidate name)).find? _ = _
  rw [hentries]
  exact find?_candidates name
    (fun _ hpath => FileSystem.isExecutableFile_of_isAbsolute hroot hpath) m.entries

/-- Where the file is that a program name was found to stand for. -/
def installedFile? (m : Machine) (name : Text) : Option (List Text) :=
  (m.installed? name).bind m.files.place?

theorem installed?_of_detours_eq_nil {found : Text} (hslash : Byte.slash ∉ name)
    (h : m.installed? name = some found) (hdetours : m.detours name = []) :
    m.absoluteWay? name = some found := by
  have hcontains : name.contains Byte.slash = false := by simpa using hslash
  unfold installed? at h
  split at h
  · contradiction
  · rw [hcontains, if_neg Bool.false_ne_true, Option.bind_eq_some_iff] at h
    obtain ⟨path, hpath, h⟩ := h
    have hentries : m.entries = searched path := by rw [entries, hpath]; rfl
    rw [detours, hentries] at hdetours
    rwa [absoluteWay?, hentries, ← find?_of_detoursIn_eq_nil hdetours]

theorem isAbsolute_of_absoluteWay? {path : Text} (h : m.absoluteWay? name = some path) :
    isAbsolute path := by
  obtain ⟨dir, hdir, rfl⟩ := List.mem_map.mp (List.mem_of_find?_eq_some h)
  exact isAbsolute_candidate name (List.mem_filter.mp hdir).2

end Machine

/-! ## Running a program -/

namespace Subprocess

variable {m inside : Machine} {options : ProcessOptions}

/-- The machine as a program sees it and the path of the file that is started for its name. -/
def started? (m : Machine) (options : ProcessOptions) (name : Text) : Option (Machine × Text) :=
  (machineFor m options).bind fun inside => (inside.started? name).map (Prod.mk inside)

theorem execute_eq (programs : Programs) (name : Text) (arguments : List Text) :
    execute programs m options name arguments =
      match started? m options name with
      | none => .immediate notFoundStatus
      | some (inside, path) => programs inside path arguments := by
  rw [execute, started?]
  cases machineFor m options with
  | none => rfl
  | some inside =>
    cases hstarted : inside.started? name with
    | none => simp [hstarted]
    | some path => simp [hstarted]

/-- A program sees the same tree and the same environment. -/
theorem unchanged_of_machineFor (h : machineFor m options = some inside) :
    inside.files.root = m.files.root ∧ inside.environment = m.environment := by
  unfold machineFor at h
  split at h
  · rw [← Option.some.inj h]
    exact ⟨rfl, rfl⟩
  · obtain ⟨files, hfiles, rfl⟩ := Option.map_eq_some_iff.mp h
    exact ⟨FileSystem.root_of_enter? hfiles, rfl⟩

end Subprocess

/-! ## Running a tool -/

namespace Adapter

variable {a : Adapter} {m inside : Machine} {root : Text} {file : List Text}

/-- Where the file is that a run of the tool in a directory starts. -/
def startedFile? (a : Adapter) (m : Machine) (root : Text) : Option (List Text) :=
  (Subprocess.started? m { workingDirectory := root } (Text.before 0 a.name)).bind
    fun (inside, path) => inside.files.place? path

/-- A run is what the program does whose file it starts. -/
theorem run_eq (programs : Programs) (formats : Formats) (timeout : Int) :
    a.run programs formats m root timeout =
      a.outcome formats timeout (.ok (Subprocess.observe { timeout, workingDirectory := root }
        (match Subprocess.started? m { workingDirectory := root } (Text.before 0 a.name) with
        | none => .immediate Subprocess.notFoundStatus
        | some (inside, path) => programs inside path (a.arguments.map (Text.before 0))))) := by
  rw [run, Subprocess.run, List.map_cons]
  simp only [Subprocess.execute_eq]
  rfl

/-- A run in a directory starts the file that the tool was found to be if and only if the first
detour that leads to a program from that directory leads to it or, if no detour does, the first
absolute entry with the tool. If all entries up to that one are absolute, the file that was found
is started, whatever the directory holds. -/
theorem startedFile?_eq_installedFile?_iff (hslash : Byte.slash ∉ a.name) (hzero : 0 ∉ a.name)
    (hinstalled : m.installedFile? a.name = some file)
    (hinside : Subprocess.machineFor m { workingDirectory := root } = some inside) :
    (a.startedFile? m root = some file ↔
      match (m.detours a.name).find? inside.files.isExecutableFile with
      | some detour => inside.files.place? detour = some file
      | none => (m.absoluteWay? a.name).bind m.files.place? = some file) ∧
    (m.detours a.name = [] → a.startedFile? m root = some file) := by
  obtain ⟨found, hfound, hplace⟩ := Option.bind_eq_some_iff.mp hinstalled
  obtain ⟨hroot, henvironment⟩ := Subprocess.unchanged_of_machineFor hinside
  have hname : a.name ≠ [] := by
    intro hnil
    rw [hnil] at hfound
    contradiction
  have hstarted : a.startedFile? m root =
      (((m.detours a.name).find? inside.files.isExecutableFile).or (m.absoluteWay? a.name)).bind
        inside.files.place? := by
    rw [startedFile?, Text.before_of_not_mem hzero, Subprocess.started?, hinside,
      ← Machine.started?_eq hname hslash hroot henvironment, Option.bind_some, Option.bind_map]
    rfl
  have habsolute : (m.absoluteWay? a.name).bind inside.files.place? =
      (m.absoluteWay? a.name).bind m.files.place? := by
    cases hway : m.absoluteWay? a.name with
    | none => rfl
    | some path =>
      exact FileSystem.place?_of_isAbsolute hroot (Machine.isAbsolute_of_absoluteWay? hway)
  constructor
  · rw [hstarted]
    cases (m.detours a.name).find? inside.files.isExecutableFile with
    | some detour => rfl
    | none => rw [Option.none_or, habsolute]
  · intro hdetours
    rw [hstarted, hdetours, List.find?_nil, Option.none_or, habsolute,
      Machine.installed?_of_detours_eq_nil hslash hfound hdetours]
    exact hplace

/-! ### A scanned directory with a file of a tool's name -/

def executableFile : Node := .file ⟨"#!/bin/sh\n".ascii, 0, true⟩

/-- A scanner with a tool in `/b`; the directory `/w` holds a file of the same name. -/
def toolInB (searchPath : Text) : Machine where
  files :=
    { root := .directory
        [("b".ascii, .directory [(semgrep.name, executableFile)]),
          ("w".ascii, .directory [(semgrep.name, executableFile)])]
      workingDirectory := [] }
  environment := [("PATH".ascii, searchPath)]

def scanOfW (searchPath : Text) : Machine :=
  { toolInB searchPath with
    files := { (toolInB searchPath).files with workingDirectory := ["w".ascii] } }

/-- An empty entry behind that of the tool does no harm. -/
theorem startedFile?_emptyEntryLast :
    Byte.slash ∉ semgrep.name ∧ 0 ∉ semgrep.name ∧
    (toolInB "/b:".ascii).installedFile? semgrep.name = some ["b".ascii, semgrep.name] ∧
    Subprocess.machineFor (toolInB "/b:".ascii) { workingDirectory := "w".ascii } =
      some (scanOfW "/b:".ascii) ∧
    semgrep.startedFile? (toolInB "/b:".ascii) "w".ascii = some ["b".ascii, semgrep.name] := by
  have hslash : Byte.slash ∉ semgrep.name := by decide
  have hzero : 0 ∉ semgrep.name := by decide
  have hinstalled : (toolInB "/b:".ascii).installedFile? semgrep.name =
      some ["b".ascii, semgrep.name] := by cbv
  have hinside : Subprocess.machineFor (toolInB "/b:".ascii) { workingDirectory := "w".ascii } =
      some (scanOfW "/b:".ascii) := by cbv
  exact ⟨hslash, hzero, hinstalled, hinside,
    (startedFile?_eq_installedFile?_iff hslash hzero hinstalled hinside).2 (by cbv)⟩

/-- With an empty entry before that of the tool, the file of the scanned directory is started. -/
theorem scannedFile_started :
    (toolInB ":/b".ascii).installedFile? semgrep.name = some ["b".ascii, semgrep.name] ∧
    semgrep.startedFile? (toolInB ":/b".ascii) "w".ascii = some ["w".ascii, semgrep.name] := by
  constructor <;> cbv

end Adapter

end Triage
