import Triage.Capabilities
import Triage.Manifest
import Triage.Proofs.Lines
import Triage.Proofs.Selection

/-!
What the line rules find in a file, line by line.

The rules are applied to the numbered lines of the file, and so are the readers of manifests and
compose files (`collect_eq_collectNumbered`); so a line has the same number in all findings. What is
found in two texts, of which the second begins a line, is what is found in each of them, with the
numbers of the second moved down by the lines of the first (`findAll_append`).
-/

namespace Triage

/-- The finding as it is when lines are put above what it was found in. -/
def Finding.movedDown (count : Nat) (f : Finding) : Finding :=
  { f with line := f.line.map (· + count) }

namespace Dependency

variable {σ : Type} {step : σ → Nat → Text → σ × List Dependency}

/-- Reads numbered lines with a state: each line changes the state and declares dependencies. -/
def collectNumbered (step : σ → Nat → Text → σ × List Dependency) (state : σ) :
    List (Text × Nat) → List Dependency
  | [] => []
  | (line, number) :: rest =>
    (step state number line).2 ++ collectNumbered step (step state number line).1 rest

theorem collect_eq_collectNumbered (state : σ) (number : Nat) (lines : List Text) :
    collect step state number lines = collectNumbered step state (lines.zipIdx number) := by
  induction lines generalizing state number with
  | nil => rfl
  | cons line rest ih =>
    rw [List.zipIdx_cons, collectNumbered, ← ih]
    rfl

end Dependency

namespace LineRule

/-! ## One line -/

/-- The finding says which rule hits which line. -/
structure Reports (r : LineRule) (path : Text) (number : Nat) (f : Finding) : Prop where
  rule : f.rule = r.id
  phase : f.phase = r.phase
  severity : f.severity = r.severity
  source : f.source = r.source
  weight : f.weight = r.weight
  file : f.file = path
  line : f.line = some number

theorem findIn_eq_none_iff {r : LineRule} {path : Text} {number : Nat} {line : Text} :
    r.findIn path number line = none ↔ searchLine r.regex line = none :=
  Option.map_eq_none_iff

theorem Reports.of_findIn {r : LineRule} {path : Text} {number : Nat} {line : Text} {f : Finding}
    (h : r.findIn path number line = some f) : r.Reports path number f := by
  obtain ⟨hit, -, rfl⟩ := Option.map_eq_some_iff.mp h
  exact ⟨rfl, rfl, rfl, rfl, rfl, rfl, rfl⟩

theorem findIn_movedDown (r : LineRule) (path : Text) (number count : Nat) (line : Text) :
    r.findIn path (number + count) line =
      (r.findIn path number line).map (Finding.movedDown count) := by
  rw [findIn, findIn, Option.map_map]
  rfl

/-! ## All lines -/

/-- What the rules find in numbered lines, line by line and rule by rule. -/
def findNumbered (rules : List LineRule) (path : Text) (lines : List (Text × Nat)) : List Finding :=
  lines.flatMap fun (line, number) => rules.filterMap fun r => r.findIn path number line

theorem findAll_eq_findNumbered (rules : List LineRule) (phases : List Phase)
    (path contents : Text) : findAll rules phases path contents =
      findNumbered (applicable rules phases path) path (Text.numbered contents) :=
  findAll_eq rules phases path contents

/-- Whatever is found in a file, some rule reports it, on some line. -/
theorem exists_reports_of_mem_findAll {rules : List LineRule} {phases : List Phase}
    {path contents : Text} {f : Finding} (h : f ∈ findAll rules phases path contents) :
    ∃ r ∈ rules, ∃ number, r.Reports path number f := by
  rw [findAll_eq] at h
  obtain ⟨⟨line, number⟩, -, h⟩ := List.mem_flatMap.mp h
  obtain ⟨r, hr, hfound⟩ := List.mem_filterMap.mp h
  exact ⟨r, (List.mem_filter.mp hr).1, number, .of_findIn hfound⟩

theorem findNumbered_append (rules : List LineRule) (path : Text)
    (above below : List (Text × Nat)) :
    findNumbered rules path (above ++ below) =
      findNumbered rules path above ++ findNumbered rules path below :=
  List.flatMap_append

theorem findNumbered_zipIdx_add (rules : List LineRule) (path : Text) (lines : List Text)
    (number count : Nat) :
    findNumbered rules path (lines.zipIdx (number + count)) =
      (findNumbered rules path (lines.zipIdx number)).map (Finding.movedDown count) := by
  induction lines generalizing number with
  | nil => rfl
  | cons line rest ih =>
    have hline : (rules.filterMap fun r => r.findIn path (number + count) line) =
        (rules.filterMap fun r => r.findIn path number line).map (Finding.movedDown count) := by
      rw [List.map_filterMap]
      simp only [findIn_movedDown]
    have hrest := ih (number + 1)
    rw [Nat.add_right_comm] at hrest
    simp only [findNumbered, List.zipIdx_cons, List.flatMap_cons, List.map_append] at hrest ⊢
    rw [hline, hrest]

theorem findAll_append (rules : List LineRule) (phases : List Phase) (path : Text) {a : Text}
    (ha : Text.EndsLine a) (b : Text) :
    findAll rules phases path (a ++ b) = findAll rules phases path a ++
      (findAll rules phases path b).map (Finding.movedDown (a.count Byte.lineFeed)) := by
  rw [findAll_eq_findNumbered, findAll_eq_findNumbered, findAll_eq_findNumbered, Text.numbered,
    Text.lines_append ha, List.zipIdx_append, findNumbered_append, Text.length_lines ha,
    findNumbered_zipIdx_add]
  rfl

/-- Line rules are applied line by line. The lines are those between line feeds, each with a number
that is one more than the line feeds above it, also for a cursor and for a reader that takes lines
off the front. On each line, each rule that is selected and covers the path reports once if it hits,
and not otherwise. So texts may be put one below the other; and whatever else reads a file by lines
is shown the same lines with the same numbers. -/
theorem findAll_lineByLine :
    (∀ contents, Text.Numbers contents (Text.numbered contents) ∧
      Text.cursorLines contents 1 0 = Text.numbered contents ∧
      (Text.readLines contents).zipIdx 1 = Text.numbered contents) ∧
    (∀ rules phases path contents, findAll rules phases path contents =
      (Text.numbered contents).flatMap fun (line, number) =>
        (rules.filter fun r => Phase.selected phases r.phase && r.scope.covers path).filterMap
          fun r => r.findIn path number line) ∧
    (∀ (r : LineRule) path number line,
      (r.findIn path number line = none ↔ searchLine r.regex line = none) ∧
      ∀ f, r.findIn path number line = some f → r.Reports path number f) ∧
    (∀ rules phases path a b, Text.EndsLine a →
      findAll rules phases path (a ++ b) = findAll rules phases path a ++
        (findAll rules phases path b).map (Finding.movedDown (a.count Byte.lineFeed))) ∧
    (∀ text,
      Requirements.dependencies text = Dependency.collectNumbered
        (fun _ number line => ((), (Requirements.ofLine? number line).toList)) ()
        (Text.numbered text) ∧
      Pipfile.dependencies text =
        Dependency.collectNumbered Pipfile.step [] (Text.numbered text) ∧
      Pyproject.dependencies text =
        Dependency.collectNumbered Pyproject.step ⟨[], false⟩ (Text.numbered text) ∧
      ∀ path, Capabilities.findings path text =
        (Capabilities.inLines (Text.numbered text)).map fun (line, number) =>
          RuleTable.addedCapability.finding path (some number)
            (snippet RuleTable.addedCapability.description line)) := by
  refine ⟨fun contents => ⟨Text.numbers_numbered contents, Text.cursorLines_eq contents 1 0, ?_⟩,
    findAll_eq, fun r path number line => ⟨findIn_eq_none_iff, fun f => Reports.of_findIn⟩,
    fun rules phases path a b ha => findAll_append rules phases path ha b, fun text => ?_⟩
  · rw [Text.readLines_eq]
    rfl
  · exact ⟨Dependency.collect_eq_collectNumbered .., Dependency.collect_eq_collectNumbered ..,
      Dependency.collect_eq_collectNumbered .., fun path => rfl⟩

/-- A rule for a letter. -/
def letterRule : LineRule :=
  ⟨"X-1".ascii, .codePatterns, .low, 5, "letter".ascii, .any, builtinSource,
    .byte (.literal false 97)⟩

/-- The second text ends without a line feed, and the first line with a carriage return. -/
theorem findAll_lineByLine_twoParts :
    let found := findAll [letterRule] [] "f".ascii
    Text.EndsLine "a\r\n\n".ascii ∧
      found ("a\r\n\n".ascii ++ "ba".ascii) =
        found "a\r\n\n".ascii ++ (found "ba".ascii).map (Finding.movedDown 2) ∧
      (found ("a\r\n\n".ascii ++ "ba".ascii)).map Finding.line = [some 1, some 3] := by
  have hends : Text.EndsLine "a\r\n\n".ascii := .inr rfl
  refine ⟨hends, findAll_lineByLine.2.2.2.1 _ _ _ _ _ hends, ?_⟩
  cbv

end LineRule

end Triage
