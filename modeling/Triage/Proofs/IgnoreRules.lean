import Mathlib.Data.List.Basic
import Triage.Ignore
import Triage.Proofs.Text

/-!
What an ignore file says, line by line.

A line is blank, a comment, or spells one rule: an exclamation mark or none, and a glob between
slashes (`ofLine?_eq_some_iff`). The rules of a file come in the order of its lines, and the last
one that applies to a path decides on it, so lines that are added at the end win over those that
were there before (`parse_lineFeed`, `decide?_parse_eq_some_iff`).
-/

namespace Triage

namespace Text

theorem dropWhile_replicate_append {b : UInt8} {s : Text} (h : s.head? ≠ some b) (n : Nat) :
    (List.replicate n b ++ s).dropWhile (· == b) = s := by
  rw [List.dropWhile_append_of_pos fun c hc => by simp [List.eq_of_mem_replicate hc]]
  cases s with
  | nil => rfl
  | cons c s => exact List.dropWhile_cons_of_neg (by simpa using h)

theorem exists_replicate_append (b : UInt8) (s : Text) :
    ∃ n, s = List.replicate n b ++ s.dropWhile (· == b) ∧
      (s.dropWhile (· == b)).head? ≠ some b := by
  refine ⟨(s.takeWhile (· == b)).length, ?_, fun h => ?_⟩
  · have hall : s.takeWhile (· == b) = List.replicate (s.takeWhile (· == b)).length b :=
      List.eq_replicate_iff.mpr ⟨rfl, fun c hc => by simpa using List.mem_takeWhile_imp hc⟩
    rw [← hall, List.takeWhile_append_dropWhile]
  · have hhead := List.head?_dropWhile_not (· == b) s
    rw [h] at hhead
    simp at hhead

theorem dropWhileEnd_append_replicate {b : UInt8} {s : Text} (h : s.getLast? ≠ some b) (n : Nat) :
    ((s ++ List.replicate n b).reverse.dropWhile (· == b)).reverse = s := by
  rw [List.reverse_append, List.reverse_replicate, dropWhile_replicate_append (by simpa using h),
    List.reverse_reverse]

theorem exists_append_replicate (b : UInt8) (s : Text) :
    ∃ n, s = (s.reverse.dropWhile (· == b)).reverse ++ List.replicate n b ∧
      (s.reverse.dropWhile (· == b)).reverse.getLast? ≠ some b := by
  obtain ⟨n, hs, hhead⟩ := exists_replicate_append b s.reverse
  refine ⟨n, ?_, by simpa using hhead⟩
  have hs' := congrArg List.reverse hs
  rwa [List.reverse_reverse, List.reverse_append, List.reverse_replicate] at hs'

end Text

open Byte (slash lineFeed)

/-! ## Lines -/

namespace IgnoreRule

/-- What a rule is made of: its glob between `leading` and `trailing` slashes. -/
structure Framed (leading trailing : Nat) (r : IgnoreRule) (body : Text) : Prop where
  text : body = List.replicate leading slash ++ r.glob ++ List.replicate trailing slash
  directoriesOnly : r.directoriesOnly = true ↔ 0 < trailing
  anchored : r.anchored = true ↔ 0 < leading ∨ slash ∈ r.glob
  nonempty : r.glob ≠ []
  head_ne : r.glob.head? ≠ some slash
  getLast_ne : r.glob.getLast? ≠ some slash

/-- The line spells the rule, between blanks: the mark of a rule that includes again, and the glob
between slashes. -/
structure SpelledBy (r : IgnoreRule) (line : Text) : Prop where
  not_comment : (Text.trim line).head? ≠ some '#'.ascii
  negated : r.negated = true ↔ (Text.trim line).head? = some '!'.ascii
  framed : ∃ leading trailing,
    r.Framed leading trailing ((Text.trim line).drop (if r.negated then 1 else 0))

/-- The rule has something to say about a path. -/
structure Covers (r : IgnoreRule) (path : Text) (isDirectory : Bool) : Prop where
  directory : r.directoriesOnly → isDirectory
  whole : r.anchored → Glob.accepts true r.glob path
  name : r.anchored = false → Glob.accepts false r.glob (Text.baseName path)

variable {r : IgnoreRule} {line path : Text} {isDirectory : Bool}

theorem applies_iff : r.applies path isDirectory ↔ r.Covers path isDirectory := by
  have hcovers : r.Covers path isDirectory ↔ (r.directoriesOnly → isDirectory) ∧
      (r.anchored → Glob.accepts true r.glob path) ∧
      (r.anchored = false → Glob.accepts false r.glob (Text.baseName path)) :=
    ⟨fun h => ⟨h.directory, h.whole, h.name⟩, fun h => ⟨h.1, h.2.1, h.2.2⟩⟩
  rw [hcovers, applies]
  cases r.anchored <;> cases r.directoriesOnly <;> simp

/-- The rule of a line without its blanks and its mark. -/
def ofBody? (negated : Bool) (body : Text) : Option IgnoreRule :=
  let trimmed := (body.reverse.dropWhile (· == slash)).reverse
  let glob := trimmed.dropWhile (· == slash)
  if glob.isEmpty then none
  else some
    { glob, negated
      directoriesOnly := trimmed.length < body.length
      anchored := glob.length < trimmed.length || glob.contains slash }

theorem framed_of_ofBody? {negated : Bool} {body : Text} (h : ofBody? negated body = some r) :
    r.negated = negated ∧ ∃ leading trailing, r.Framed leading trailing body := by
  obtain ⟨trailing, hend, hlast⟩ := Text.exists_append_replicate slash body
  simp only [ofBody?] at h
  generalize (body.reverse.dropWhile (· == slash)).reverse = trimmed at h hend hlast
  obtain ⟨leading, hstart, hhead⟩ := Text.exists_replicate_append slash trimmed
  generalize trimmed.dropWhile (· == slash) = glob at h hstart hhead
  split at h
  · contradiction
  rename_i hglob
  rw [List.isEmpty_iff] at hglob
  obtain rfl := Option.some.inj h
  refine ⟨rfl, leading, trailing, ?_, ?_, ?_, hglob, hhead, ?_⟩
  · rw [hend, hstart]
  · simp [hend]
  · simp [hstart]
  · rwa [hstart, List.getLast?_append, List.getLast?_eq_some_getLast hglob, Option.some_or,
      ← List.getLast?_eq_some_getLast hglob] at hlast

theorem Framed.ofBody? {leading trailing : Nat} {body : Text} (h : r.Framed leading trailing body) :
    ofBody? r.negated body = some r := by
  have hlast : (List.replicate leading slash ++ r.glob).getLast? ≠ some slash := by
    rw [List.getLast?_append, List.getLast?_eq_some_getLast h.nonempty, Option.some_or,
      ← List.getLast?_eq_some_getLast h.nonempty]
    exact h.getLast_ne
  have hdirectories : decide (0 < trailing) = r.directoriesOnly :=
    Bool.eq_iff_iff.mpr (by simp [h.directoriesOnly])
  have hanchored : (decide (0 < leading) || r.glob.contains slash) = r.anchored :=
    Bool.eq_iff_iff.mpr (by simp [h.anchored])
  rw [IgnoreRule.ofBody?, h.text, Text.dropWhileEnd_append_replicate hlast]
  simp only [Text.dropWhile_replicate_append h.head_ne, List.isEmpty_iff, h.nonempty, if_false,
    List.length_append, List.length_replicate, Nat.lt_add_left_iff_pos, Nat.lt_add_right_iff_pos,
    hdirectories, hanchored]

theorem ofLine?_eq (line : Text) : ofLine? line =
    if (Text.trim line).isEmpty || (Text.trim line).head? == some '#'.ascii then none
    else ofBody? ((Text.trim line).head? == some '!'.ascii)
      ((Text.trim line).drop (if (Text.trim line).head? == some '!'.ascii then 1 else 0)) := by
  simp only [ofLine?, ofBody?]
  cases (Text.trim line).head? == some '!'.ascii <;> rfl

/-- A line gives the rule that it spells. -/
theorem ofLine?_eq_some_iff : ofLine? line = some r ↔ r.SpelledBy line := by
  rw [ofLine?_eq]
  constructor
  · intro h
    split at h
    · contradiction
    rename_i hline
    simp only [Bool.or_eq_true, beq_iff_eq, not_or] at hline
    obtain ⟨hnegated, hframed⟩ := framed_of_ofBody? h
    exact ⟨hline.2, by rw [hnegated, beq_iff_eq], hnegated ▸ hframed⟩
  · intro h
    obtain ⟨leading, trailing, hframed⟩ := h.framed
    have hnegated : ((Text.trim line).head? == some '!'.ascii) = r.negated :=
      Bool.eq_iff_iff.mpr (by rw [beq_iff_eq, h.negated])
    have hne : Text.trim line ≠ [] := by
      intro hnil
      have htext := hframed.text
      rw [hnil, List.drop_nil] at htext
      simp [hframed.nonempty] at htext
    rw [if_neg (by simpa [hne] using h.not_comment), hnegated]
    exact hframed.ofBody?

end IgnoreRule

/-! ## Files -/

namespace IgnoreRules

open IgnoreRule

variable {rules : IgnoreRules} {text path path' : Text} {r : IgnoreRule}
  {isDirectory excluded : Bool}

theorem mem_parse_iff : r ∈ parse text ↔ ∃ line ∈ Text.splitOn lineFeed text, r.SpelledBy line := by
  simp only [parse, List.mem_filterMap, ofLine?_eq_some_iff]

/-- The lines of two texts, one put after the other, are read one by one. -/
theorem parse_lineFeed (a b : Text) : parse (a ++ lineFeed :: b) = parse a ++ parse b := by
  rw [parse, Text.splitOn_append, List.filterMap_append]
  rfl

/-- The decision is that of the last rule that applies. -/
theorem decide?_eq_find? (rules : IgnoreRules) (path : Text) (isDirectory : Bool) :
    rules.decide? path isDirectory =
      (rules.reverse.find? (·.applies path isDirectory)).map fun r => !r.negated := by
  rw [decide?, List.foldl_eq_foldr_reverse]
  induction rules.reverse with
  | nil => rfl
  | cons r rest ih =>
    rw [List.foldr_cons, List.find?_cons, ih]
    cases r.applies path isDirectory <;> rfl

theorem decide?_append (a b : IgnoreRules) (path : Text) (isDirectory : Bool) :
    decide? (a ++ b) path isDirectory =
      (b.decide? path isDirectory).or (a.decide? path isDirectory) := by
  simp only [decide?_eq_find?, List.reverse_append, List.find?_append, Option.map_or]

theorem decide?_eq_some_iff : rules.decide? path isDirectory = some excluded ↔
    ∃ before r after, rules = before ++ r :: after ∧ r.applies path isDirectory ∧
      excluded = !r.negated ∧ ∀ later ∈ after, ¬ later.applies path isDirectory := by
  rw [decide?_eq_find?, Option.map_eq_some_iff]
  simp only [List.find?_eq_some_iff_append]
  constructor
  · rintro ⟨r, ⟨happlies, after, before, hrules, hafter⟩, rfl⟩
    refine ⟨before.reverse, r, after.reverse, ?_, happlies, rfl, fun later hlater => ?_⟩
    · simpa using congrArg List.reverse hrules
    · simpa using hafter later (List.mem_reverse.mp hlater)
  · rintro ⟨before, r, after, rfl, happlies, rfl, hafter⟩
    refine ⟨r, ⟨happlies, after.reverse, before.reverse, by simp, fun later hlater => ?_⟩, rfl⟩
    simpa using hafter later (List.mem_reverse.mp hlater)

/-- The rule is that of the last line of the text that spells a rule which covers the path. -/
def LastToCover (r : IgnoreRule) (text path : Text) (isDirectory : Bool) : Prop :=
  ∃ before line after, Text.splitOn lineFeed text = before ++ line :: after ∧
    r.SpelledBy line ∧ r.Covers path isDirectory ∧
    ∀ later ∈ after, ∀ r' : IgnoreRule, r'.SpelledBy later → ¬ r'.Covers path isDirectory

theorem decide?_parse_eq_some_iff : (parse text).decide? path isDirectory = some excluded ↔
    ∃ r, LastToCover r text path isDirectory ∧ excluded = !r.negated := by
  simp only [decide?_eq_some_iff, LastToCover, applies_iff, ← ofLine?_eq_some_iff]
  constructor
  · rintro ⟨before, r, after, hparse, hcovers, hexcluded, hafter⟩
    obtain ⟨linesBefore, rest, hlines, -, hrest⟩ := List.filterMap_eq_append_iff.mp hparse
    obtain ⟨skipped, line, linesAfter, rfl, -, hline, rfl⟩ := List.filterMap_eq_cons_iff.mp hrest
    refine ⟨r, ⟨linesBefore ++ skipped, line, linesAfter, ?_, hline, hcovers, ?_⟩, hexcluded⟩
    · rw [hlines, List.append_assoc]
    · exact fun later hlater r' hr' => hafter r' (List.mem_filterMap.mpr ⟨later, hlater, hr'⟩)
  · rintro ⟨r, ⟨before, line, after, hlines, hline, hcovers, hafter⟩, hexcluded⟩
    refine ⟨before.filterMap ofLine?, r, after.filterMap ofLine?, ?_, hcovers, hexcluded, ?_⟩
    · rw [parse, hlines, List.filterMap_append, List.filterMap_cons_some hline]
    · intro r' hr'
      obtain ⟨later, hlater, hspelled⟩ := List.mem_filterMap.mp hr'
      exact hafter later hlater r' hspelled

/-- Rules for names cannot tell paths of one name apart. -/
theorem decide?_congr_baseName (hrules : ∀ r ∈ rules, r.anchored = false)
    (hname : Text.baseName path = Text.baseName path') (isDirectory : Bool) :
    rules.decide? path isDirectory = rules.decide? path' isDirectory := by
  refine List.foldl_ext _ _ _ fun result r hr => ?_
  have happlies : r.applies path isDirectory = r.applies path' isDirectory := by
    simp [applies, hrules r hr, hname]
  rw [happlies]

/-- Later lines win: a text put after another one decides first, and each text by its last line that
applies. Where no line starts with a slash or has one within it, names alone count. No glob is empty
or has a slash at an end. -/
theorem parse_laterLinesWin :
    (∀ a b path isDirectory,
      (parse (a ++ lineFeed :: b)).decide? path isDirectory =
          ((parse b).decide? path isDirectory).or ((parse a).decide? path isDirectory) ∧
        (parse (a ++ lineFeed :: b)).length = (parse a).length + (parse b).length) ∧
    (∀ text path isDirectory excluded, (parse text).decide? path isDirectory = some excluded ↔
      ∃ r, LastToCover r text path isDirectory ∧ excluded = !r.negated) ∧
    (∀ text, (∀ line ∈ Text.splitOn lineFeed text, ∀ r : IgnoreRule, r.SpelledBy line →
        r.anchored = false) →
      ∀ path path' isDirectory, Text.baseName path = Text.baseName path' →
        (parse text).decide? path isDirectory = (parse text).decide? path' isDirectory) ∧
    ∀ text, ∀ r ∈ parse text,
      r.glob ≠ [] ∧ r.glob.head? ≠ some slash ∧ r.glob.getLast? ≠ some slash := by
  refine ⟨fun a b path isDirectory => ?_, fun _ _ _ _ => decide?_parse_eq_some_iff, ?_, ?_⟩
  · rw [parse_lineFeed, decide?_append, List.length_append]
    exact ⟨rfl, rfl⟩
  · intro text hlines path path' isDirectory hname
    refine decide?_congr_baseName (fun r hr => ?_) hname isDirectory
    obtain ⟨line, hline, hspelled⟩ := mem_parse_iff.mp hr
    exact hlines line hline r hspelled
  · intro text r hr
    obtain ⟨line, -, hspelled⟩ := mem_parse_iff.mp hr
    obtain ⟨leading, trailing, hframed⟩ := hspelled.framed
    exact ⟨hframed.nonempty, hframed.head_ne, hframed.getLast_ne⟩

/-- A rule for directories and one for names decide alike on all paths of one name. -/
theorem parse_laterLinesWin_names :
    (∀ line ∈ Text.splitOn lineFeed "build/\n!*.py".ascii, ∀ r : IgnoreRule, r.SpelledBy line →
      r.anchored = false) ∧
    Text.baseName "build/a.py".ascii = Text.baseName "a.py".ascii ∧
    (parse "build/\n!*.py".ascii).decide? "build/a.py".ascii false =
      (parse "build/\n!*.py".ascii).decide? "a.py".ascii false := by
  have hlines : ∀ line ∈ Text.splitOn lineFeed "build/\n!*.py".ascii, ∀ r : IgnoreRule,
      r.SpelledBy line → r.anchored = false := by
    have hall : ∀ line ∈ Text.splitOn lineFeed "build/\n!*.py".ascii,
        ∀ r ∈ ofLine? line, r.anchored = false := by
      decide
    exact fun line hline r hr => hall line hline r (ofLine?_eq_some_iff.mpr hr)
  have hname : Text.baseName "build/a.py".ascii = Text.baseName "a.py".ascii := by decide
  exact ⟨hlines, hname, parse_laterLinesWin.2.2.1 _ hlines _ _ _ hname⟩

end IgnoreRules

end Triage
