import Mathlib.Algebra.Order.BigOperators.Group.List
import Mathlib.Algebra.Order.Ring.Int
import Mathlib.Data.List.Forall2
import Triage.Cloud.Signature
import Triage.Proofs.LineFindings
import Triage.Proofs.Regex.Reading

/-!
What signatures can add to a score.

The threat intelligence service sends as many signatures as it likes and writes into them what it
likes. A signature still makes one rule at most, and none if its pattern is not well formed; the
rule counts for a phase of the built-in rules (`Phase.IsBuiltin`) and weighs what that phase weighs
(`Signature.IsRule`). On one line a rule reports once at most (`LineRule.length_findNumbered_le`).
So the lines of a text and the number of rules bound what it can weigh.
-/

namespace Triage

/-- A phase of the built-in rules, rather than of external tools or threat lookups. -/
def Phase.IsBuiltin (phase : Phase) : Prop := phase ≠ .external ∧ phase ≠ .threatIntel

theorem Phase.IsBuiltin.weight_bounds {phase : Phase} (h : phase.IsBuiltin) :
    1 ≤ phase.weight ∧ phase.weight ≤ 10 := by
  cases phase with
  | external => exact absurd rfl h.1
  | threatIntel => exact absurd rfl h.2
  | _ => decide

/-! ## The weight of a text -/

namespace LineRule

theorem length_findNumbered_le (rules : List LineRule) (path : Text) (lines : List (Text × Nat)) :
    (findNumbered rules path lines).length ≤ lines.length * rules.length := by
  induction lines with
  | nil => exact Nat.zero_le _
  | cons line rest ih =>
    rw [findNumbered, List.flatMap_cons, List.length_append, List.length_cons, Nat.succ_mul,
      Nat.add_comm]
    exact Nat.add_le_add ih (List.length_filterMap_le ..)

theorem length_findAll_le (rules : List LineRule) (phases : List Phase) (path text : Text) :
    (findAll rules phases path text).length ≤ (Text.lines text).length * rules.length := by
  rw [findAll_eq_findNumbered]
  calc (findNumbered (applicable rules phases path) path (Text.numbered text)).length
      ≤ (Text.numbered text).length * (applicable rules phases path).length :=
        length_findNumbered_le ..
    _ = (Text.lines text).length * (applicable rules phases path).length := by
        rw [Text.numbered, List.length_zipIdx]
    _ ≤ (Text.lines text).length * rules.length :=
        Nat.mul_le_mul_left _ (List.length_filter_le ..)

theorem sum_weight_findAll_le {rules : List LineRule} {most : Nat}
    (h : ∀ r ∈ rules, r.weight ≤ most) (phases : List Phase) (path text : Text) :
    ((findAll rules phases path text).map Finding.weight).sum ≤
      most * (Text.lines text).length * rules.length := by
  have hweight : ∀ w ∈ (findAll rules phases path text).map Finding.weight, w ≤ (most : Int) := by
    intro w hw
    obtain ⟨f, hf, rfl⟩ := List.mem_map.mp hw
    obtain ⟨r, hr, number, hreports⟩ := exists_reports_of_mem_findAll hf
    exact hreports.weight ▸ h r hr
  have hsum := List.sum_le_card_nsmul _ _ hweight
  rw [List.length_map, nsmul_eq_mul] at hsum
  have hlength : ((findAll rules phases path text).length : Int) ≤
      (Text.lines text).length * rules.length :=
    mod_cast length_findAll_le rules phases path text
  calc ((findAll rules phases path text).map Finding.weight).sum
      ≤ (findAll rules phases path text).length * (most : Int) := hsum
    _ ≤ (Text.lines text).length * rules.length * (most : Int) :=
        Int.mul_le_mul_of_nonneg_right hlength (Int.natCast_nonneg most)
    _ = most * (Text.lines text).length * rules.length := by
        rw [Int.mul_comm, Int.mul_assoc]

end LineRule

/-! ## The rules of signatures -/

namespace Signature

/-- The phase that a signature counts for: the one it names, if that is a phase of the built-in
rules, and otherwise the one for code. -/
inductive CountsFor (name : Text) : Phase → Prop where
  | named {phase : Phase} (hname : Phase.ofName? name = some phase) (hbuiltin : phase.IsBuiltin) :
      CountsFor name phase
  | otherwise (h : ∀ phase, Phase.ofName? name = some phase → ¬phase.IsBuiltin) :
      CountsFor name .codePatterns

theorem CountsFor.isBuiltin {name : Text} {phase : Phase} (h : CountsFor name phase) :
    phase.IsBuiltin := by
  cases h with
  | named _ hbuiltin => exact hbuiltin
  | otherwise => exact ⟨nofun, nofun⟩

theorem countsFor_phaseOf (name : Text) : CountsFor name (phaseOf name) := by
  rw [phaseOf]
  split
  · next hname =>
    exact .otherwise fun phase h hbuiltin => hbuiltin.1 (Option.some.inj (h.symm.trans hname))
  · next hname =>
    exact .otherwise fun phase h hbuiltin => hbuiltin.2 (Option.some.inj (h.symm.trans hname))
  · next hname => exact .otherwise fun phase h => nomatch hname.symm.trans h
  · next phase hexternal hthreatIntel hname => exact .named hname ⟨hexternal, hthreatIntel⟩

/-- The rule is the signature's. It searches every file for what the pattern denotes. -/
structure IsRule (s : Signature) (r : LineRule) : Prop where
  id : r.id = s.id
  description : r.description = s.description
  severity : r.severity = (Severity.ofName? s.severity).getD .low
  denotes : Pattern.Denotes false s.pattern r.regex
  phase : CountsFor s.phase r.phase
  weight : r.weight = r.phase.weight
  scope : r.scope = .any
  source : r.source = "cloud".ascii

theorem IsRule.weight_bounds {s : Signature} {r : LineRule} (h : IsRule s r) :
    1 ≤ r.weight ∧ r.weight ≤ 10 := by
  have hbounds := h.phase.isBuiltin.weight_bounds
  rw [h.weight]
  omega

/-- The signature's pattern can be read. -/
def IsUsable (s : Signature) : Prop := Pattern.IsWellFormed false s.pattern

instance (s : Signature) : Decidable (IsUsable s) :=
  inferInstanceAs (Decidable (Pattern.IsWellFormed false s.pattern))

theorem rule?_eq_none_iff {s : Signature} : rule? s = none ↔ ¬s.IsUsable := by
  rw [rule?, Option.map_eq_none_iff, IsUsable, ← Pattern.isSome_ofPattern?_iff,
    Option.not_isSome_iff_eq_none]

theorem isRule_of_rule? {s : Signature} {r : LineRule} (h : rule? s = some r) : IsRule s r := by
  obtain ⟨e, he, rfl⟩ := Option.map_eq_some_iff.mp h
  exact ⟨rfl, rfl, rfl, Pattern.ofPattern?_eq_some_iff.mp he, countsFor_phaseOf s.phase, rfl, rfl,
    rfl⟩

theorem isRule_compile (signatures : List Signature) :
    List.Forall₂ IsRule (signatures.filter (IsUsable ·)) (compile signatures).1 := by
  unfold compile
  induction signatures with
  | nil => exact .nil
  | cons s rest ih =>
    cases hrule : rule? s with
    | none =>
      have hs : ¬s.IsUsable := rule?_eq_none_iff.mp hrule
      rw [List.filterMap_cons_none hrule, List.filter_cons_of_neg (by simpa using hs)]
      exact ih
    | some r =>
      have hs : s.IsUsable := by
        by_contra hs
        rw [rule?_eq_none_iff.mpr hs] at hrule
        contradiction
      rw [List.filterMap_cons_some hrule, List.filter_cons_of_pos (by simpa using hs)]
      exact .cons (isRule_of_rule? hrule) ih

theorem compile_rejected (signatures : List Signature) :
    (compile signatures).2 = (signatures.filter (¬IsUsable ·)).map Signature.id := by
  have hrejected : ∀ s : Signature, (rule? s).isNone = decide ¬s.IsUsable := fun s =>
    Bool.eq_iff_iff.mpr (by rw [Option.isNone_iff_eq_none, rule?_eq_none_iff, decide_eq_true_iff])
  unfold compile
  simp only [hrejected]

theorem exists_isRule_of_mem_compile {signatures : List Signature} {r : LineRule}
    (h : r ∈ (compile signatures).1) : ∃ s ∈ signatures, IsRule s r := by
  obtain ⟨s, hs, hrule⟩ := List.mem_filterMap.mp h
  exact ⟨s, hs, isRule_of_rule? hrule⟩

/-- Signatures cannot inflate a score. Those with a pattern that can be read make a rule each, in
order, and the ids of the others are rejected, in order. Every rule is marked as the cloud's, covers
all files and counts for a phase of the built-in rules, whose weight it has. What the rules find in a
text weighs at most ten for each line and rule. -/
theorem compile_bounded (signatures : List Signature) :
    List.Forall₂ IsRule (signatures.filter (IsUsable ·)) (compile signatures).1 ∧
    (compile signatures).2 = (signatures.filter (¬IsUsable ·)).map Signature.id ∧
    (∀ r ∈ (compile signatures).1,
      r.source = "cloud".ascii ∧ r.scope = .any ∧ r.phase ≠ .external ∧ r.phase ≠ .threatIntel ∧
      r.weight = r.phase.weight ∧ 1 ≤ r.weight ∧ r.weight ≤ 10) ∧
    ∀ phases path text,
      ((LineRule.findAll (compile signatures).1 phases path text).map Finding.weight).sum ≤
        10 * (Text.lines text).length * (compile signatures).1.length := by
  have hbounds : ∀ r ∈ (compile signatures).1, 1 ≤ r.weight ∧ r.weight ≤ 10 := by
    intro r hr
    obtain ⟨s, -, hrule⟩ := exists_isRule_of_mem_compile hr
    exact hrule.weight_bounds
  refine ⟨isRule_compile signatures, compile_rejected signatures, fun r hr => ?_, ?_⟩
  · obtain ⟨s, -, hrule⟩ := exists_isRule_of_mem_compile hr
    exact ⟨hrule.source, hrule.scope, hrule.phase.isBuiltin.1, hrule.phase.isBuiltin.2, hrule.weight,
      hbounds r hr⟩
  · exact LineRule.sum_weight_findAll_le fun r hr => (hbounds r hr).2

/-- A signature that names the phase of threat lookups, which weighs most, and one whose group is
not closed. -/
def greedySignatures : List Signature :=
  [⟨"S-1".ascii, "a".ascii, "Threat-Intel".ascii, "fatal".ascii, [255]⟩,
   ⟨"S-2".ascii, "(a".ascii, "install hooks".ascii, "high".ascii, []⟩]

theorem compile_bounded_greedy :
    ∃ r, (compile greedySignatures).1 = [r] ∧ (compile greedySignatures).2 = ["S-2".ascii] ∧
      r.id = "S-1".ascii ∧ r.phase ≠ .threatIntel ∧ r.weight ≤ 10 ∧
      ((LineRule.findAll [r] [] "f".ascii "a\na".ascii).map Finding.weight).sum ≤ 20 := by
  obtain ⟨hrules, hrejected, hall, hsum⟩ := compile_bounded greedySignatures
  have husable : greedySignatures.filter (IsUsable ·) = [greedySignatures[0]] := by decide +kernel
  have hunusable : greedySignatures.filter (¬IsUsable ·) = [greedySignatures[1]] := by
    decide +kernel
  rw [husable] at hrules
  obtain ⟨r, rest, hrule, hrest, hcompiled⟩ := List.forall₂_cons_left_iff.mp hrules
  obtain rfl : rest = [] := List.forall₂_nil_left_iff.mp hrest
  rw [hunusable] at hrejected
  rw [hcompiled] at hall hsum
  obtain ⟨-, -, -, hphase, -, -, hweight⟩ := hall r (List.mem_singleton.mpr rfl)
  exact ⟨r, hcompiled, hrejected, hrule.id, hphase, hweight, hsum [] "f".ascii "a\na".ascii⟩

end Signature

end Triage
