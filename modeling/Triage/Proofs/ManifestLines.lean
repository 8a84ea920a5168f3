import Triage.Proofs.LineFindings
import Triage.Proofs.PipfileTables

/-!
Where the dependencies of a manifest stand.

Whatever a manifest holds, a dependency that a reader of lines declares bears the number of the line
that it was read from, and its name stands on that line (`StandsOn`). Each of the three readers
keeps this in each of its states, so it holds of all that is collected: the dependencies come in the
order of their lines, and each points to a line of the text that has its name
(`Manifest.PointsInto`).
-/

namespace Triage

namespace Dependency

/-- The dependency bears the number of a line that has its name. -/
structure StandsOn (number : Nat) (line : Text) (d : Dependency) : Prop where
  line_eq : d.line = number
  name_ne_nil : d.name ≠ []
  name_isInfix : d.name <:+: line

theorem StandsOn.of_isInfix {number : Nat} {part line : Text} {d : Dependency}
    (h : d.StandsOn number part) (hpart : part <:+: line) : d.StandsOn number line :=
  ⟨h.line_eq, h.name_ne_nil, h.name_isInfix.trans hpart⟩

/-! ## Parts of a line -/

theorem withoutComment_isInfix (line : Text) : withoutComment line <:+: line :=
  (Text.trim_isInfix _).trans (List.takeWhile_prefix _).isInfix

theorem skipByte_isSuffix (b : UInt8) (s : Text) : skipByte b s <:+ s := by
  unfold skipByte
  split
  · exact List.drop_suffix 1 s
  · exact List.suffix_refl s

theorem after_isSuffix (sep : UInt8) (s : Text) : Text.after sep s <:+ s :=
  (List.drop_suffix 1 _).trans (List.dropWhile_suffix _)

theorem isInfix_of_mem_quotedTexts {s quoted : Text} (h : quoted ∈ quotedTexts s) :
    quoted <:+: s := by
  induction s using quotedTexts.induct with
  | case1 => simp [quotedTexts] at h
  | case2 b rest hquote ih =>
    rw [quotedTexts, if_pos hquote] at h
    have hrest : rest <:+: b :: rest := (List.suffix_cons b rest).isInfix
    rcases List.mem_cons.mp h with rfl | h
    · exact (List.takeWhile_prefix _).isInfix.trans hrest
    · exact ((ih h).trans (after_isSuffix b rest).isInfix).trans hrest
  | case3 b rest hquote ih =>
    rw [quotedTexts, if_neg hquote] at h
    exact (ih h).trans (List.suffix_cons b rest).isInfix

theorem standsOn_of_ofRequirement? {number : Nat} {requirement : Text} {d : Dependency}
    (h : ofRequirement? number requirement = some d) : d.StandsOn number requirement := by
  simp only [ofRequirement?, Option.ite_none_left_eq_some] at h
  obtain ⟨hname, hd⟩ := h
  obtain rfl := Option.some.inj hd
  exact ⟨rfl, fun hnil => hname (List.isEmpty_iff.mpr hnil), (List.takeWhile_prefix _).isInfix⟩

/-- Name and value of an assignment stand on its line. -/
theorem isInfix_of_assignment? {quotes : Bool} {line name value : Text}
    (h : assignment? quotes line = some (name, value)) :
    name ≠ [] ∧ name <:+: line ∧ value <:+ line := by
  have hunquote (s : Text) : (if quotes then skipByte '"'.ascii s else s) <:+ s := by
    split
    · exact skipByte_isSuffix _ s
    · exact List.suffix_refl s
  simp only [assignment?, Option.ite_none_left_eq_some, Option.map_eq_some_iff] at h
  obtain ⟨hname, rest, hrest, hpair⟩ := h
  obtain ⟨rfl, rfl⟩ := Prod.mk.inj hpair
  have hstart := (hunquote (line.dropWhile Byte.isSpace)).trans
    (List.dropWhile_suffix Byte.isSpace)
  refine ⟨fun hnil => hname (List.isEmpty_iff.mpr hnil),
    (List.takeWhile_prefix _).isInfix.trans hstart.isInfix, ?_⟩
  have htail := (((List.dropWhile_suffix Byte.isSpace).trans (hunquote _)).trans
    (List.dropWhile_suffix isNameByte)).trans hstart
  rw [afterByte?_eq_some_iff.mp hrest] at htail
  exact (List.suffix_cons _ _).trans htail

end Dependency

/-! ## What a line declares -/

open Dependency (StandsOn)

theorem Requirements.standsOn_of_ofLine? {number : Nat} {line : Text} {d : Dependency}
    (h : ofLine? number line = some d) : d.StandsOn number line := by
  unfold ofLine? at h
  simp only at h
  split at h
  · exact nomatch h
  · exact (Dependency.standsOn_of_ofRequirement? h).of_isInfix
      (Dependency.withoutComment_isInfix line)

theorem Pipfile.standsOn_of_ofAssignment? {number : Nat} {line : Text} {d : Dependency}
    (h : ofAssignment? number line = some d) : d.StandsOn number line := by
  simp only [ofAssignment?, Option.bind_eq_bind, Option.bind_eq_some_iff] at h
  obtain ⟨⟨name, rest⟩, hassigned, value, -, hd⟩ := h
  obtain rfl := Option.some.inj hd
  obtain ⟨hne, hname, -⟩ := Dependency.isInfix_of_assignment? hassigned
  exact ⟨rfl, hne, hname⟩

theorem Pipfile.standsOn_of_mem_step (current : Text) (number : Nat) (line : Text) :
    ∀ d ∈ (step current number line).2, d.StandsOn number line := by
  intro d hd
  have hline := Dependency.withoutComment_isInfix line
  unfold step at hd
  simp only at hd
  split at hd
  · exact nomatch hd
  · split at hd
    · exact (standsOn_of_ofAssignment? (Option.mem_toList.mp hd)).of_isInfix hline
    · exact nomatch hd

namespace Pyproject

theorem standsOn_of_mem_inQuotes {number : Nat} {line : Text} {d : Dependency}
    (h : d ∈ inQuotes number line) : d.StandsOn number line := by
  obtain ⟨quoted, hquoted, hd⟩ := List.mem_filterMap.mp h
  exact (Dependency.standsOn_of_ofRequirement? hd).of_isInfix
    (Dependency.isInfix_of_mem_quotedTexts hquoted)

theorem standsOn_of_ofAssignment? {number : Nat} {line : Text} {d : Dependency}
    (h : ofAssignment? number line = some d) : d.StandsOn number line := by
  simp only [ofAssignment?, Option.bind_eq_bind, Option.bind_eq_some_iff] at h
  obtain ⟨⟨name, rest⟩, hassigned, value, -, hd⟩ := h
  obtain ⟨hne, hname, -⟩ := Dependency.isInfix_of_assignment? hassigned
  split at hd
  · exact nomatch hd
  · obtain rfl := Option.some.inj hd
    exact ⟨rfl, hne, hname⟩

theorem isSuffix_of_arrayStart? {sectionName line rest : Text}
    (h : arrayStart? sectionName line = some rest) : rest <:+ line := by
  simp only [arrayStart?, Option.bind_eq_bind, Option.bind_eq_some_iff,
    Option.ite_none_right_eq_some] at h
  obtain ⟨⟨key, value⟩, hassigned, behind, hbracket, -, hrest⟩ := h
  obtain ⟨-, -, hvalue⟩ := Dependency.isInfix_of_assignment? hassigned
  obtain rfl := Option.some.inj hrest
  have hspace := List.dropWhile_suffix (l := value) Byte.isSpace
  rw [Dependency.afterByte?_eq_some_iff.mp hbracket] at hspace
  exact ((List.suffix_cons _ _).trans hspace).trans hvalue

theorem standsOn_of_mem_step (s : State) (number : Nat) (line : Text) :
    ∀ d ∈ (step s number line).2, d.StandsOn number line := by
  intro d hd
  refine StandsOn.of_isInfix ?_ (Dependency.withoutComment_isInfix line)
  unfold step at hd
  simp only at hd
  split at hd
  · exact nomatch hd
  split at hd
  · exact standsOn_of_mem_inQuotes hd
  split at hd
  · exact nomatch hd
  split at hd
  · exact standsOn_of_ofAssignment? (Option.mem_toList.mp hd)
  split at hd
  · next rest hstart =>
    exact (standsOn_of_mem_inQuotes hd).of_isInfix (isSuffix_of_arrayStart? hstart).isInfix
  · exact nomatch hd

end Pyproject

/-! ## What all lines declare -/

namespace Dependency

variable {σ : Type} {step : σ → Nat → Text → σ × List Dependency}

/-- Each line, in whatever state it is read, declares dependencies that stand on it. -/
def ReadsWhereItStands (step : σ → Nat → Text → σ × List Dependency) : Prop :=
  ∀ state number line, ∀ d ∈ (step state number line).2, d.StandsOn number line

theorem exists_standsOn_of_mem_collectNumbered (hstep : ReadsWhereItStands step) {state : σ}
    {pairs : List (Text × Nat)} {d : Dependency} (h : d ∈ collectNumbered step state pairs) :
    ∃ line number, (line, number) ∈ pairs ∧ d.StandsOn number line := by
  induction pairs generalizing state with
  | nil => exact nomatch h
  | cons pair rest ih =>
    obtain ⟨line, number⟩ := pair
    rcases List.mem_append.mp h with h | h
    · exact ⟨line, number, List.mem_cons_self, hstep state number line d h⟩
    · obtain ⟨line', number', hmem, hd⟩ := ih h
      exact ⟨line', number', List.mem_cons_of_mem _ hmem, hd⟩

/-- Dependencies come in the order of their lines. -/
theorem pairwise_collectNumbered (hstep : ReadsWhereItStands step) (state : σ)
    {pairs : List (Text × Nat)} (hpairs : (pairs.map Prod.snd).Pairwise (· ≤ ·)) :
    (collectNumbered step state pairs).Pairwise fun d e => d.line ≤ e.line := by
  induction pairs generalizing state with
  | nil => exact .nil
  | cons pair rest ih =>
    obtain ⟨line, number⟩ := pair
    rw [List.map_cons, List.pairwise_cons] at hpairs
    have hhere : ∀ d ∈ (step state number line).2, d.line = number :=
      fun d hd => (hstep state number line d hd).line_eq
    refine List.pairwise_append.mpr ⟨?_, ih _ hpairs.2, fun d hd e he => ?_⟩
    · exact List.pairwise_of_forall_mem_list fun d hd e he => by rw [hhere d hd, hhere e he]
    · obtain ⟨line', number', hmem, hstands⟩ := exists_standsOn_of_mem_collectNumbered hstep he
      rw [hhere d hd, hstands.line_eq]
      exact hpairs.1 number' (List.mem_map_of_mem hmem)

end Dependency

namespace Manifest

/-- Of the packages that are counted some are listed as unpinned, in the order of their lines. Each
points to a line of the text, and its name stands there. -/
structure PointsInto (m : Manifest) (text : Text) : Prop where
  length_unpinned : m.unpinned.length ≤ m.packages
  ascending : m.unpinned.Pairwise fun d e => d.line ≤ e.line
  line_mem : ∀ d ∈ m.unpinned, 1 ≤ d.line ∧ d.line ≤ (Text.lines text).length
  name_ne_nil : ∀ d ∈ m.unpinned, d.name ≠ []
  named : ∀ d ∈ m.unpinned, ∃ line, Text.IsLine text d.line line ∧ d.name <:+: line

theorem pointsInto_of_collect {σ : Type} {step : σ → Nat → Text → σ × List Dependency}
    (hstep : Dependency.ReadsWhereItStands step) {state : σ} {m : Manifest} {text : Text}
    (h : m.dependencies = Dependency.collect step state 1 (Text.lines text)) :
    m.PointsInto text := by
  have hnumbered : m.dependencies = Dependency.collectNumbered step state (Text.numbered text) :=
    h.trans (Dependency.collect_eq_collectNumbered ..)
  have hstands : ∀ d ∈ m.unpinned, ∃ line number,
      (line, number) ∈ Text.numbered text ∧ d.StandsOn number line := by
    intro d hd
    have hmem := (List.mem_filter.mp hd).1
    rw [hnumbered] at hmem
    exact Dependency.exists_standsOn_of_mem_collectNumbered hstep hmem
  have hconsecutive : ((Text.numbered text).map Prod.snd).Pairwise (· ≤ ·) := by
    rw [(Text.numbers_numbered text).consecutive]
    exact List.pairwise_le_range' 1
  refine ⟨List.length_filter_le _ _, ?_, fun d hd => ?_, fun d hd => ?_, fun d hd => ?_⟩
  · rw [unpinned, hnumbered]
    exact (Dependency.pairwise_collectNumbered hstep state hconsecutive).filter _
  · obtain ⟨line, number, hmem, hstand⟩ := hstands d hd
    rw [hstand.line_eq]
    rw [Text.numbered, List.mem_zipIdx_iff_le_and_getElem?_sub] at hmem
    obtain ⟨hle, hget⟩ := hmem
    obtain ⟨hlt, -⟩ := List.getElem?_eq_some_iff.mp hget
    exact ⟨hle, by omega⟩
  · obtain ⟨_, _, -, hstand⟩ := hstands d hd
    exact hstand.name_ne_nil
  · obtain ⟨line, number, hmem, hstand⟩ := hstands d hd
    rw [hstand.line_eq]
    exact ⟨line, ((Text.numbers_numbered text).mem_iff line number).mp hmem, hstand.name_isInfix⟩

/-- What each of the readers of lines declares for a text. -/
def readByLines (text : Text) : List (List Dependency) :=
  [Requirements.dependencies text, Pipfile.dependencies text, Pyproject.dependencies text]

/-- The summary of a manifest that is read by lines points into its text. -/
theorem pointsInto_of_mem_readByLines {m : Manifest} {text : Text}
    (h : m.dependencies ∈ readByLines text) : m.PointsInto text := by
  simp only [readByLines, List.mem_cons, List.not_mem_nil, or_false] at h
  rcases h with h | h | h
  · refine pointsInto_of_collect (fun _ number line d hd => ?_) h
    exact Requirements.standsOn_of_ofLine? (Option.mem_toList.mp hd)
  · exact pointsInto_of_collect Pipfile.standsOn_of_mem_step h
  · exact pointsInto_of_collect Pyproject.standsOn_of_mem_step h

section OfFile

variable {path text : Text} {document : Text → Option Document} {m : Manifest}

theorem kind_of_ofFile? (h : ofFile? path text document = some m) :
    ManifestKind.ofPath? path = some m.kind := by
  obtain ⟨kind, hkind, rfl⟩ := Option.map_eq_some_iff.mp h
  rw [hkind]
  cases kind with
  | packageJson => cases (document text).bind Document.members? <;> rfl
  | _ => rfl

/-- Only JSON can fail to be understood. -/
theorem error_of_ofFile? (h : ofFile? path text document = some m)
    (hkind : m.kind ≠ .packageJson) : m.error = [] := by
  obtain ⟨kind, hpath, rfl⟩ := Option.map_eq_some_iff.mp h
  have hsame := Option.some.inj (hpath.symm.trans (kind_of_ofFile? h))
  cases kind with
  | packageJson => exact absurd hsame.symm hkind
  | _ => rfl

theorem dependencies_of_ofFile? (h : ofFile? path text document = some m)
    (hkind : m.kind ≠ .packageJson) : m.dependencies ∈ readByLines text := by
  obtain ⟨kind, hpath, rfl⟩ := Option.map_eq_some_iff.mp h
  have hsame := Option.some.inj (hpath.symm.trans (kind_of_ofFile? h))
  cases kind with
  | requirements => exact .head _
  | packageJson => exact absurd hsame.symm hkind
  | pipfile => exact .tail _ (.head _)
  | pyproject => exact .tail _ (.tail _ (.head _))

end OfFile

theorem baseName_of_ofPath? {path : Text} (h : ManifestKind.ofPath? path = some .packageJson) :
    Text.baseName path = "package.json".ascii := by
  unfold ManifestKind.ofPath? at h
  simp only at h
  split at h
  · exact nomatch h
  split at h
  · next hname => exact eq_of_beq hname
  · split at h
    · exact nomatch h
    · split at h <;> exact nomatch h

/-- The files that the scope of manifests covers are those that are read as one. -/
theorem covers_eq_isSome_ofFile? (path text : Text) (document : Text → Option Document) :
    FileScope.manifest.covers path = (ofFile? path text document).isSome := by
  rw [ofFile?, Option.isSome_map, ManifestKind.ofPath?]
  simp only [FileScope.covers, List.contains_cons, List.contains_nil, Bool.or_false]
  generalize Text.baseName path = name
  cases name.startsWith "requirements".ascii && name.endsWith ".txt".ascii
  · cases name == "package.json".ascii
    · cases name == "Pipfile".ascii
      · cases name == "pyproject.toml".ascii <;> rfl
      · rfl
    · rfl
  · rfl

end Manifest

end Triage
