import Mathlib
import Triage.Config
import Triage.Proofs.Order
import Triage.Report.Rendering

/-!
Which findings the text form of a report lists.

The visible findings are ranked by weight, then by severity, and those that tie stay in the order of
the report; there is one ranking only (`Report.ranks_iff`). The text lists its beginning, and
settings have a say in nothing else of it.
-/

namespace Triage

namespace Report

/-! ## Rankings -/

/-- The finding weighs more, or as much and is more severe. -/
def Heavier (f g : Finding) : Prop :=
  g.weight < f.weight ∨ f.weight = g.weight ∧ g.severity.rank < f.severity.rank

instance (f g : Finding) : Decidable (Heavier f g) :=
  inferInstanceAs (Decidable (_ ∨ _ ∧ _))

/-- The list has the findings of another one, the heaviest first, and those that weigh the same and
are equally severe as they came. -/
structure Ranks (findings ranking : List Finding) : Prop where
  perm : ranking.Perm findings
  descending : ranking.Pairwise fun f g => ¬Heavier g f
  stable : ∀ weight rank,
    ranking.filter (fun f => f.weight = weight ∧ f.severity.rank = rank) =
      findings.filter fun f => f.weight = weight ∧ f.severity.rank = rank

theorem heavier_iff (f g : Finding) : heavier f g ↔ Heavier f g := by
  simp only [heavier, Heavier, Bool.or_eq_true, Bool.and_eq_true, decide_eq_true_eq, beq_iff_eq]

theorem heavier_keyed :
    Keyed heavier (fun f => (f.weight, f.severity.rank)) (Prod.Lex (· > ·) (· > ·)) where
  strict := {}
  iff f g := by simp [heavier, Prod.lex_def]

variable {l m : List Finding}

theorem pairwise_heavier_iff :
    l.Pairwise (fun f g => !heavier g f) ↔ l.Pairwise fun f g => ¬Heavier g f := by
  simp only [Bool.not_eq_true', ← Bool.not_eq_true, heavier_iff]

theorem filter_key_eq (l : List Finding) (key : Int × Nat) :
    l.filter (fun f => (f.weight, f.severity.rank) = key) =
      l.filter fun f => f.weight = key.1 ∧ f.severity.rank = key.2 := by
  simp only [Prod.ext_iff]

theorem ranks_mergeSort (l : List Finding) : Ranks l (l.mergeSort fun f g => !heavier g f) where
  perm := List.mergeSort_perm l _
  descending :=
    pairwise_heavier_iff.mp (List.pairwise_mergeSort heavier_keyed.trans heavier_keyed.total l)
  stable weight rank := by
    have hstable := heavier_keyed.filter_mergeSort l (weight, rank)
    rwa [filter_key_eq, filter_key_eq] at hstable

/-- There is one ranking, which is the one that sorting gives. -/
theorem ranks_iff : Ranks l m ↔ m = l.mergeSort fun f g => !heavier g f := by
  refine ⟨fun h => ?_, fun h => h ▸ ranks_mergeSort l⟩
  refine heavier_keyed.eq_of_filter_eq (pairwise_heavier_iff.mpr h.descending)
    (List.pairwise_mergeSort heavier_keyed.trans heavier_keyed.total l) fun key => ?_
  rw [heavier_keyed.filter_mergeSort, filter_key_eq, filter_key_eq, h.stable]

/-- Nothing that is cut off a ranking is heavier than what is left of it. -/
theorem Ranks.not_heavier_of_cut (h : Ranks l m) (n : Nat) :
    ∀ f ∈ m.take n, ∀ g ∈ m.drop n, ¬Heavier g f := by
  have hdescending := h.descending
  rw [← List.take_append_drop n m, List.pairwise_append] at hdescending
  exact hdescending.2.2

/-! ## The text form -/

/-- Whether a finding is listed: with the filter on, it is at least as severe as the settings ask,
if they name a severity. -/
def isListed (c : Config) (filtered : Bool) (f : Finding) : Bool :=
  !filtered || (Severity.ofName? c.minSeverity).all fun least => least.rank ≤ f.severity.rank

/-- The text form under some settings, with their filter on or off. -/
def textFor (c : Config) (filtered : Bool) (r : Report) : Text :=
  r.text (if filtered then c.leastSeverity else none)

theorem visible_eq_isListed (c : Config) (filtered : Bool) :
    visible (if filtered then c.leastSeverity else none) = isListed c filtered := by
  funext f
  unfold visible isListed Config.leastSeverity
  cases filtered with
  | false => rfl
  | true => cases Severity.ofName? c.minSeverity <;> rfl

/-- The heading above the findings that a text lists, with their number exactly if they are not all
findings of the report. -/
inductive IsHeading (listed total : Nat) : Text → Prop where
  | complete (h : listed = total) : IsHeading listed total "Findings".ascii
  | cut (h : listed < total) : IsHeading listed total
      ("Findings".ascii ++ (" (showing ".ascii ++ Text.ofNat listed ++ " of ".ascii ++
        Text.ofNat total ++ ")".ascii))

theorem exists_isHeading {listed total : Nat} (h : listed ≤ total) :
    ∃ heading, IsHeading listed total heading ∧ findingHeading listed total = line heading := by
  unfold findingHeading
  split
  · next hlt => exact ⟨_, .cut hlt, rfl⟩
  · next hle => exact ⟨_, .complete (by omega), by rw [List.append_nil]⟩

theorem length_shown_le (least : Option Severity) (findings : List Finding) :
    (shown least findings).length ≤ findings.length := by
  have hranked : (ranked least findings).length ≤ findings.length := by
    rw [ranked, List.length_mergeSort]
    exact List.length_filter_le _ _
  exact Nat.le_trans (List.length_take_le' _ _) hranked

/-- What a text lists: under a heading, findings or the word that there are none. -/
def listing (heading : Text) (printed : List Finding) : Text :=
  line heading ++ if printed = [] then line "  none".ascii else printed.flatMap findingLines

theorem exists_listing (r : Report) (least : Option Severity) :
    ∃ heading, IsHeading (shown least r.findings).length r.findings.length heading ∧
      r.findingTable least = listing heading (shown least r.findings) := by
  obtain ⟨heading, hheading, heq⟩ := exists_isHeading (length_shown_le least r.findings)
  refine ⟨heading, hheading, ?_⟩
  simp only [findingTable, listing, heq, List.append_assoc]
  cases shown least r.findings <;> rfl

/-- **The text form lists the heaviest findings, and its filter bends nothing else.** The findings
that it lists are the first fifty in the one ranking of those that are visible, or all of them if
there are fewer; so none that is left out is heavier than one that is listed. The heading tells how
many are listed exactly if some of the report are not. What stands before and behind the findings is
the same whatever the settings, and so is the whole text if the filter is off. -/
theorem text_lists_heaviest (r : Report) :
    let before := r.header ++ r.phaseTable ++ r.componentTable
    let behind := r.noteTable ++ r.footer
    (∀ c filtered, ∃ ranking heading,
      let visible := r.findings.filter (isListed c filtered)
      let cut := min 50 visible.length
      (∀ m, Ranks visible m ↔ m = ranking) ∧
      (∀ f ∈ ranking.take cut, ∀ g ∈ ranking.drop cut, ¬Heavier g f) ∧
      IsHeading cut r.findings.length heading ∧
      r.textFor c filtered = before ++ listing heading (ranking.take cut) ++ behind) ∧
    ∀ c c', r.textFor c false = r.textFor c' false := by
  intro before behind
  refine ⟨fun c filtered => ?_, fun c c' => rfl⟩
  let least := if filtered then c.leastSeverity else none
  have hranks (m : List Finding) :
      Ranks (r.findings.filter (isListed c filtered)) m ↔ m = ranked least r.findings := by
    rw [ranks_iff, ranked, visible_eq_isListed]
  have hranked := (hranks _).mpr rfl
  have hlength := hranked.perm.length_eq
  have hshown : shown least r.findings = (ranked least r.findings).take
      (min 50 (r.findings.filter (isListed c filtered)).length) := by
    rw [← hlength, ← List.take_eq_take_min]
    rfl
  obtain ⟨heading, hheading, htable⟩ := exists_listing r least
  refine ⟨_, heading, hranks, hranked.not_heavier_of_cut _, ?_, ?_⟩
  · rwa [hshown, List.length_take, hlength, Nat.min_eq_left (Nat.min_le_right ..)] at hheading
  · rw [← hshown]
    show r.text least = _
    simp only [text, htable, before, behind, List.append_assoc]

def lightFinding : Finding :=
  ⟨.provenance, "PROV-001".ascii, builtinSource, .low, ".x".ascii, none, "hidden".ascii, 1⟩

def heavyFinding : Finding :=
  ⟨.codePatterns, "CODE-001".ascii, builtinSource, .high, "a.py".ascii, some 2, "eval".ascii, 50⟩

/-- A report with a light finding before a heavy one. -/
def lightFirst : Report where
  item := "i".ascii
  target := "t".ascii
  counts := [0, 1, 0, 0, 0, 1, 0, 0]
  score := 51
  verdict := .critical
  components := []
  notes := []
  findings := [lightFinding, heavyFinding]
  filesScanned := 1
  fingerprint := []
  generatedAt := 0
  tableVersion := 1

theorem text_lists_heaviest_lightFirst :
    let c : Config := { minSeverity := "High".ascii }
    ∃ before behind,
      lightFirst.textFor c true =
        before ++ listing "Findings (showing 1 of 2)".ascii [heavyFinding] ++ behind ∧
      lightFirst.textFor c false =
        before ++ listing "Findings".ascii [heavyFinding, lightFinding] ++ behind ∧
      ¬Heavier lightFinding heavyFinding := by
  intro c
  obtain ⟨hall, -⟩ := text_lists_heaviest lightFirst
  refine ⟨lightFirst.header ++ lightFirst.phaseTable ++ lightFirst.componentTable,
    lightFirst.noteTable ++ lightFirst.footer, ?_, ?_, by decide⟩
  · obtain ⟨ranking, heading, hranks, -, hheading, htext⟩ := hall c true
    obtain rfl : [heavyFinding] = ranking := (hranks _).mp (ranks_iff.mpr (by cbv))
    have hcut : heading = "Findings (showing 1 of 2)".ascii := by
      cases hheading with
      | complete h => exact absurd h (by decide)
      | cut h => decide
    rwa [hcut] at htext
  · obtain ⟨ranking, heading, hranks, -, hheading, htext⟩ := hall c false
    obtain rfl : [heavyFinding, lightFinding] = ranking :=
      (hranks _).mp (ranks_iff.mpr (by cbv))
    have hcomplete : heading = "Findings".ascii := by
      cases hheading with
      | complete h => rfl
      | cut h => exact absurd h (by decide)
    rwa [hcomplete] at htext

end Report

end Triage
