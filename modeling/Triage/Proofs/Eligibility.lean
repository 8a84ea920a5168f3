import Triage.Detection
import Triage.Pass.Dependencies

/-!
Which of the files that a scope names have their content scanned.

Scopes and the allow-list of contents each go by names in their own way. A name with an ending of
the list is eligible, if anything stands before the ending (`isEligibleName_of_endsWith`), and all
scopes ask for such an ending or for a listed name. The one exception is the scope of containers: it
takes any name that starts with `containerfile`, of which the list only has `Containerfile`
(`isEligible_iff_of_covers`).
-/

namespace Triage

/-! ## Endings -/

namespace FileEntry

/-- Whether the content of a file of that name is scanned. -/
def isEligibleName (name : Text) : Bool :=
  eligibleNames.contains name || (Text.toLower name).startsWith "dockerfile".ascii ||
    (ending? (Text.toLower name)).any eligibleEndings.contains

theorem isEligible_eq (path : Text) : isEligible path = isEligibleName (Text.baseName path) := rfl

theorem ending?_append {stem rest : Text} (hstem : stem ≠ []) (hrest : '.'.ascii ∉ rest) :
    ending? (stem ++ '.'.ascii :: rest) = some ('.'.ascii :: rest) := by
  have hmem : (stem ++ '.'.ascii :: rest).contains '.'.ascii = true := by simp
  have hdrop : ((stem ++ '.'.ascii :: rest).reverse.dropWhile (· != '.'.ascii)).drop 1 =
      stem.reverse := by
    rw [List.reverse_append, List.reverse_cons, List.append_assoc,
      List.dropWhile_append_of_pos fun b hb => by
        simpa using fun heq : b = '.'.ascii => hrest (heq ▸ List.mem_reverse.mp hb)]
    simp
  rw [ending?, if_pos hmem, hdrop]
  simp [hstem]

theorem eligibleEndings_dotted :
    ∀ ending ∈ eligibleEndings, ∃ rest, ending = '.'.ascii :: rest ∧ '.'.ascii ∉ rest := by
  have hdotted : ∀ ending ∈ eligibleEndings,
      ending = '.'.ascii :: ending.drop 1 ∧ '.'.ascii ∉ ending.drop 1 := by
    decide
  exact fun ending hmem => ⟨_, hdotted ending hmem⟩

theorem isEligibleName_of_endsWith {name ending : Text} (hmem : ending ∈ eligibleEndings)
    (hends : (Text.toLower name).endsWith ending) (hne : Text.toLower name ≠ ending) :
    isEligibleName name := by
  obtain ⟨rest, rfl, hrest⟩ := eligibleEndings_dotted ending hmem
  obtain ⟨stem, hstem⟩ := List.isSuffixOf_iff_suffix.mp hends
  have hnonempty : stem ≠ [] := by
    rintro rfl
    exact hne hstem.symm
  rw [isEligibleName, ← hstem, ending?_append hnonempty hrest]
  simp [hmem]

end FileEntry

/-! ## Cases -/

namespace Text

theorem toLower_endsWith {name ending : Text} (h : name.endsWith ending) :
    (toLower name).endsWith (toLower ending) := by
  rw [endsWith, List.isSuffixOf_iff_suffix] at h ⊢
  exact h.map _

end Text

theorem Byte.toLower_eq_dot {b : UInt8} (h : Byte.toLower b = '.'.ascii) : b = '.'.ascii := by
  unfold Byte.toLower at h
  split at h
  · next hupper =>
    -- A capital letter becomes a letter, whose code is too large for that of the dot.
    simp only [Byte.isUpper, Bool.and_eq_true, decide_eq_true_eq, UInt8.le_iff_toNat_le] at hupper
    have hsum := congrArg UInt8.toNat h
    rw [UInt8.toNat_add] at hsum
    have h65 : (65 : UInt8).toNat = 65 := rfl
    have h90 : (90 : UInt8).toNat = 90 := rfl
    have h32 : (32 : UInt8).toNat = 32 := rfl
    have hdot : '.'.ascii.toNat = 46 := rfl
    omega
  · exact h

/-! ## Files that are not eligible -/

section NotEligible

variable {fs : FileSystem} {before after : List FileEntry} {f : FileEntry}

theorem DependenciesPass.gather_cons_of_not_eligible {formats : Formats} {c : Config}
    (hf : f.eligible = false) :
    gather fs formats c (before ++ f :: after) = gather fs formats c (before ++ after) := by
  have hskip (p : Progress) : addFile fs formats c p f = p := by simp [addFile, hf]
  rw [gather, gather, List.foldl_append, List.foldl_cons, hskip, ← List.foldl_append]

theorem Detection.scanFiles_cons_of_not_eligible {phases : List Phase} {limit : Nat}
    (hf : f.eligible = false) :
    scanFiles fs phases limit (before ++ f :: after) =
      scanFiles fs phases limit (before ++ after) := by
  rw [scanFiles, scanFiles, List.filter_append, List.filter_cons, hf, List.filter_append]
  rfl

end NotEligible

/-! ## Names and scopes -/

namespace FileScope

/-- The names of agent configurations that count wherever they stand. -/
def agentNames : List Text :=
  [".mcp.json".ascii, "mcp.json".ascii, "claude_desktop_config.json".ascii]

/-- A name that does not start with a dot, or that of an agent configuration. -/
def HasStem (name : Text) : Prop := name.head? ≠ some '.'.ascii ∨ name ∈ agentNames

/-- A name for a container file that the allow-list lacks: it starts with `containerfile`, in any
mixture of cases, but is not `Containerfile` and has none of the endings of the list. -/
def isStray (name : Text) : Bool :=
  (Text.toLower name).startsWith "containerfile".ascii && name != "Containerfile".ascii &&
    !(FileEntry.ending? (Text.toLower name)).any FileEntry.eligibleEndings.contains

open FileEntry

variable {name ending : Text}

theorem HasStem.toLower_ne (hstem : HasStem name) (hmem : ending ∈ eligibleEndings) :
    Text.toLower name ≠ ending := by
  rintro rfl
  obtain hhead | hagent := hstem
  · obtain ⟨rest, hrest, -⟩ := eligibleEndings_dotted _ hmem
    cases name with
    | nil => cases hrest
    | cons b name =>
      obtain ⟨hb, -⟩ := List.cons_eq_cons.mp hrest
      exact hhead (congrArg some (Byte.toLower_eq_dot hb))
  · have hnone : ∀ agent ∈ agentNames, Text.toLower agent ∉ eligibleEndings := by decide
    exact hnone _ hagent hmem

theorem HasStem.isEligibleName (hstem : HasStem name) (hmem : ending ∈ eligibleEndings)
    (hends : (Text.toLower name).endsWith ending) : isEligibleName name :=
  isEligibleName_of_endsWith hmem hends (hstem.toLower_ne hmem)

theorem HasStem.isEligibleName_of_endsWith (hstem : HasStem name) (hmem : ending ∈ eligibleEndings)
    (hends : name.endsWith ending) : FileEntry.isEligibleName name := by
  have hlower : ∀ ending ∈ eligibleEndings, Text.toLower ending = ending := by decide
  exact hstem.isEligibleName hmem (hlower ending hmem ▸ Text.toLower_endsWith hends)

theorem isEligibleName_of_mem (hmem : name ∈ eligibleNames) : isEligibleName name := by
  simp [FileEntry.isEligibleName, hmem]

theorem HasStem.isEligibleName_of_isYaml (hstem : HasStem name) (hyaml : isYaml name) :
    FileEntry.isEligibleName name := by
  rw [isYaml, Bool.or_eq_true] at hyaml
  obtain hyml | hyaml := hyaml
  · exact hstem.isEligibleName_of_endsWith (by decide) hyml
  · exact hstem.isEligibleName_of_endsWith (by decide) hyaml

theorem not_isEligibleName_of_isStray (hstray : isStray name) :
    ¬ FileEntry.isEligibleName name := by
  simp only [isStray, Bool.and_eq_true, bne_iff_ne, Bool.not_eq_true'] at hstray
  obtain ⟨⟨hstart, hne⟩, hending⟩ := hstray
  have honly : ∀ listed ∈ eligibleNames,
      (Text.toLower listed).startsWith "containerfile".ascii → listed = "Containerfile".ascii := by
    decide
  have hname : name ∉ eligibleNames := fun hmem => hne (honly name hmem hstart)
  have hdocker : (Text.toLower name).startsWith "dockerfile".ascii = false := by
    rw [Text.startsWith, List.isPrefixOf_iff_prefix] at hstart
    obtain ⟨rest, hrest⟩ := hstart
    rw [← hrest]
    rfl
  simp [FileEntry.isEligibleName, hname, hdocker, hending]

theorem container_isEligibleName {path : Text} (hcovers : container.covers path)
    (hstem : HasStem (Text.baseName path)) (hstray : ¬ isStray (Text.baseName path)) :
    FileEntry.isEligibleName (Text.baseName path) := by
  simp only [covers, Bool.or_eq_true, Bool.and_eq_true, isYaml] at hcovers
  obtain ((hdocker | hcontainer) | hends) | ⟨-, hyml | hyaml⟩ := hcovers
  · simp [FileEntry.isEligibleName, hdocker]
  · by_cases hname : Text.baseName path = "Containerfile".ascii
    · exact isEligibleName_of_mem (hname ▸ by decide)
    · have hending : (ending? (Text.toLower (Text.baseName path))).any
          eligibleEndings.contains = true := by
        simpa [isStray, hcontainer, hname] using hstray
      simp only [FileEntry.isEligibleName, hending, Bool.or_true]
  · exact hstem.isEligibleName (by decide) hends
  · exact hstem.isEligibleName (by decide) hyml
  · exact hstem.isEligibleName (by decide) hyaml

/-- A file that a scope names is scanned unless its name is one of the strays. -/
theorem isEligible_iff_of_covers {scope : FileScope} {path : Text} (hscope : scope ≠ any)
    (hcovers : scope.covers path) (hstem : HasStem (Text.baseName path)) :
    isEligible path ↔ ¬ isStray (Text.baseName path) := by
  rw [isEligible_eq]
  refine ⟨fun heligible hstray => not_isEligibleName_of_isStray hstray heligible, fun hstray => ?_⟩
  cases scope with
  | any => exact absurd rfl hscope
  | setupScript =>
    have hall : ∀ n ∈ ["setup.py".ascii, "setup.cfg".ascii], FileEntry.isEligibleName n := by decide
    exact hall _ (List.contains_iff_mem.mp hcovers)
  | packageJson => exact beq_iff_eq.mp hcovers ▸ by decide
  | makefile =>
    obtain hname | hends := Bool.or_eq_true_iff.mp hcovers
    · have hall : ∀ n ∈ ["Makefile".ascii, "makefile".ascii, "GNUmakefile".ascii],
          n ∈ eligibleNames := by
        decide
      exact isEligibleName_of_mem (hall _ (List.contains_iff_mem.mp hname))
    · exact hstem.isEligibleName_of_endsWith (by decide) hends
  | pyproject => exact beq_iff_eq.mp hcovers ▸ by decide
  | container => exact container_isEligibleName hcovers hstem hstray
  | workflow => exact hstem.isEligibleName_of_isYaml (Bool.and_eq_true_iff.mp hcovers).1
  | agentConfig =>
    obtain hname | hends := Bool.or_eq_true_iff.mp hcovers
    · have hall : ∀ n ∈ agentNames, FileEntry.isEligibleName n := by decide
      exact hall _ (List.contains_iff_mem.mp hname)
    · simp only [Bool.and_eq_true] at hends
      exact hstem.isEligibleName_of_endsWith (by decide) hends.1.2
  | manifest =>
    obtain hends | hname := Bool.or_eq_true_iff.mp hcovers
    · simp only [Bool.and_eq_true] at hends
      exact hstem.isEligibleName_of_endsWith (by decide) hends.2
    · have hall : ∀ n ∈ ["package.json".ascii, "Pipfile".ascii, "pyproject.toml".ascii],
          FileEntry.isEligibleName n := by
        decide
      exact hall _ (List.contains_iff_mem.mp hname)

/-- With an ending of the list even a `Containerfile` of another name is scanned. -/
theorem isEligible_iff_of_covers_yamlEnding :
    container ≠ any ∧ container.covers "web/containerfile.yml".ascii ∧
      HasStem (Text.baseName "web/containerfile.yml".ascii) ∧
      isEligible "web/containerfile.yml".ascii := by
  have hcovers : container.covers "web/containerfile.yml".ascii := by decide
  have hstem : HasStem (Text.baseName "web/containerfile.yml".ascii) := .inl (by decide)
  exact ⟨by decide, hcovers, hstem,
    (isEligible_iff_of_covers (by decide) hcovers hstem).mpr (by decide)⟩

/-- `Containerfile.dev` is a file that the rules for containers name, and whose content neither
pass looks at: the findings, notes and counts are as if it were not there. -/
theorem containerfileDev_skipped :
    container.covers "Containerfile.dev".ascii ∧ HasStem (Text.baseName "Containerfile.dev".ascii) ∧
      ¬ isEligible "Containerfile.dev".ascii ∧
      ∀ fullPath size fs formats c phases limit before after,
        let f : FileEntry :=
          ⟨"Containerfile.dev".ascii, fullPath, size, isEligible "Containerfile.dev".ascii⟩
        DependenciesPass.gather fs formats c (before ++ f :: after) =
            DependenciesPass.gather fs formats c (before ++ after) ∧
          Detection.scanFiles fs phases limit (before ++ f :: after) =
            Detection.scanFiles fs phases limit (before ++ after) :=
  ⟨by decide, .inl (by decide), by decide, fun _ _ _ _ _ _ _ _ _ =>
    ⟨DependenciesPass.gather_cons_of_not_eligible rfl,
      Detection.scanFiles_cons_of_not_eligible rfl⟩⟩

end FileScope

end Triage
