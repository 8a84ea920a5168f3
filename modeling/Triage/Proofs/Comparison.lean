import Mathlib.Algebra.BigOperators.Group.List.Basic
import Mathlib.Data.List.Perm.Subperm
import Triage.Proofs.OrderIndependence
import Triage.Report.Comparison

/-!
A comparison of two reports is a difference of multisets.

How many findings are paired off with keys depends on the numbers alone (`countP_paired`), whichever
of several findings with one key are taken. So the findings of one rule, file and line are shared
out between the three lists of a comparison as the numbers in the two reports say
(`Comparison.countP_unchanged` and the lemmas after it), and all else that is said of a comparison
follows from these numbers.
-/

namespace Triage

/-! ## Keys -/

namespace Finding

/-- The rule, the file and the line of a finding. -/
def spot (f : Finding) : Text × Text × Option Nat := (f.rule, f.file, f.line)

/-- The key of all findings at one spot. -/
def keyAt (spot : Text × Text × Option Nat) : FindingKey := ⟨spot.1, spot.2.1, lineRank spot.2.2⟩

/-- Lines that a signed word can count have ranks of their own. -/
theorem lineRank_injective {l l' : Option Nat} (h : ∀ n ∈ l, n < 2 ^ 63) (h' : ∀ n ∈ l', n < 2 ^ 63)
    (hrank : lineRank l = lineRank l') : l = l' := by
  have hword : ∀ n ∈ l, n < 2 ^ 64 := fun n hn => Nat.lt_trans (h n hn) (by decide)
  have hword' : ∀ n ∈ l', n < 2 ^ 64 := fun n hn => Nat.lt_trans (h' n hn) (by decide)
  have hlast : ¬lastLine < 2 ^ 63 := by decide
  rcases (lineRank_eq_iff hword hword').mp hrank with heq | ⟨-, rfl⟩ | ⟨rfl, -⟩
  · exact heq
  · exact absurd (h' lastLine rfl) hlast
  · exact absurd (h lastLine rfl) hlast

theorem key_eq_keyAt_iff {f : Finding} {k : Text × Text × Option Nat}
    (hf : ∀ n ∈ f.line, n < 2 ^ 63) (hk : ∀ n ∈ k.2.2, n < 2 ^ 63) :
    f.key = keyAt k ↔ f.spot = k := by
  obtain ⟨rule, file, line⟩ := k
  simp only [key, keyAt, spot, FindingKey.mk.injEq, Prod.mk.injEq]
  constructor
  · intro hspot
    obtain ⟨hrule, hfile, hline⟩ := hspot
    exact ⟨hrule, hfile, lineRank_injective hf hk hline⟩
  · intro hkey
    obtain ⟨hrule, hfile, rfl⟩ := hkey
    exact ⟨hrule, hfile, rfl⟩

end Finding

/-! ## Pairing off -/

namespace Comparison

/-- Each finding is paired off or left over. -/
theorem perm_pairOff (keys : List FindingKey) (l : List Finding) :
    ((pairOff keys l).1 ++ (pairOff keys l).2).Perm l := by
  induction l generalizing keys with
  | nil => exact List.Perm.refl []
  | cons f rest ih =>
    rw [pairOff]
    split
    · exact (ih _).cons f
    · exact List.perm_middle.trans ((ih _).cons f)

/-- Of the findings with one key, as many are paired off as there are keys for them. -/
theorem countP_paired (keys : List FindingKey) (l : List Finding) (k : FindingKey) :
    (pairOff keys l).1.countP (·.key = k) = min (keys.count k) (l.countP (·.key = k)) := by
  induction l generalizing keys with
  | nil => simp [pairOff]
  | cons f rest ih =>
    rw [pairOff]
    by_cases hmem : keys.contains f.key
    · rw [if_pos hmem]
      have hpos : 0 < keys.count f.key := List.count_pos_iff.mpr (List.contains_iff_mem.mp hmem)
      by_cases hk : f.key = k
      · subst hk
        have hrest := ih (keys.erase f.key)
        rw [List.count_erase_self] at hrest
        rw [List.countP_cons_of_pos (by simp), List.countP_cons_of_pos (by simp), hrest]
        omega
      · have hrest := ih (keys.erase f.key)
        rw [List.count_erase_of_ne (Ne.symm hk)] at hrest
        rw [List.countP_cons_of_neg (by simpa using hk),
          List.countP_cons_of_neg (by simpa using hk),
          hrest]
    · rw [if_neg hmem]
      have hzero : keys.count f.key = 0 :=
        List.count_eq_zero_of_not_mem fun h => hmem (List.contains_iff_mem.mpr h)
      by_cases hk : f.key = k
      · -- The key is used up, so the finding is left over.
        subst hk
        rw [ih keys, hzero, Nat.zero_min, Nat.zero_min]
      · rw [List.countP_cons_of_neg (by simpa using hk), ih keys]

theorem count_map_key (l : List Finding) (k : FindingKey) :
    (l.map Finding.key).count k = l.countP (·.key = k) := by
  rw [List.count, List.countP_map]
  rfl

end Comparison

/-! ## The three lists of a comparison -/

namespace Comparison

variable {baseline current : Report}

/-- The findings of the baseline that were found again. -/
def found (baseline current : Report) : List Finding :=
  (pairOff (current.findings.map Finding.key) baseline.findings.reverse).1

/-- Each finding of the current report is unchanged or new. -/
theorem perm_current (baseline current : Report) :
    ((ofReports baseline current).unchanged ++ (ofReports baseline current).added).Perm
      current.findings := by
  have hpair := perm_pairOff (baseline.findings.map Finding.key) current.findings
  exact ((Finding.perm_sort _).append (Finding.perm_sort _)).trans hpair

/-- Each finding of the baseline was found again or is resolved. -/
theorem perm_baseline (baseline current : Report) :
    (found baseline current ++ (ofReports baseline current).resolved).Perm baseline.findings := by
  have hpair := perm_pairOff (current.findings.map Finding.key) baseline.findings.reverse
  have hresolved := (Finding.perm_sort _).trans (List.reverse_perm
    (pairOff (current.findings.map Finding.key) baseline.findings.reverse).2)
  exact (hresolved.append_left _).trans (hpair.trans (List.reverse_perm _))

theorem countP_key_unchanged (baseline current : Report) (k : FindingKey) :
    (ofReports baseline current).unchanged.countP (·.key = k) =
      min (baseline.findings.countP (·.key = k)) (current.findings.countP (·.key = k)) := by
  have hpaired := countP_paired (baseline.findings.map Finding.key) current.findings k
  rw [count_map_key] at hpaired
  exact ((Finding.perm_sort _).countP_eq _).trans hpaired

theorem countP_key_found (baseline current : Report) (k : FindingKey) :
    (found baseline current).countP (·.key = k) =
      min (baseline.findings.countP (·.key = k)) (current.findings.countP (·.key = k)) := by
  have hpaired := countP_paired (current.findings.map Finding.key) baseline.findings.reverse k
  rw [count_map_key, List.countP_reverse, Nat.min_comm] at hpaired
  exact hpaired

end Comparison

/-! ## Counting by spots -/

namespace Finding

/-- A signed word can count all lines of the findings. -/
def CountsLines (l : List Finding) : Prop := ∀ f ∈ l, ∀ n ∈ f.line, n < 2 ^ 63

/-- There is no finding at a spot whose line is too far down; at any other spot there are those of
its key. -/
theorem countP_spot_cases (k : Text × Text × Option Nat) :
    (∀ l, CountsLines l → l.countP (·.spot = k) = 0) ∨
      ∀ l, CountsLines l → l.countP (·.spot = k) = l.countP (·.key = keyAt k) := by
  by_cases hk : ∀ n ∈ k.2.2, n < 2 ^ 63
  · refine Or.inr fun l hl => List.countP_congr fun f hf => ?_
    simpa using (key_eq_keyAt_iff (hl f hf) hk).symm
  · refine Or.inl fun l hl => List.countP_eq_zero.mpr fun f hf hspot => hk ?_
    have hline : f.line = k.2.2 := congrArg (fun spot => spot.2.2) (of_decide_eq_true hspot)
    exact hline ▸ hl f hf

theorem perm_map_spot {l l' : List Finding}
    (h : ∀ k, l.countP (·.spot = k) = l'.countP (·.spot = k)) :
    (l.map spot).Perm (l'.map spot) := by
  have hcount : ∀ (l : List Finding) k, (l.map spot).count k = l.countP (·.spot = k) := by
    intro l k
    rw [List.count, List.countP_map]
    exact List.countP_congr fun f _ => by simp
  rw [List.perm_iff_count]
  intro k
  rw [hcount, hcount, h]

/-- Where the spot decides what a finding weighs, lists with the same spots weigh the same. -/
theorem sum_weight_eq {l l' : List Finding} (weigh : Text × Text × Option Nat → Int)
    (hl : ∀ f ∈ l, f.weight = weigh f.spot) (hl' : ∀ f ∈ l', f.weight = weigh f.spot)
    (h : (l.map spot).Perm (l'.map spot)) : (l.map weight).sum = (l'.map weight).sum := by
  have hspots : ∀ l : List Finding, (∀ f ∈ l, f.weight = weigh f.spot) →
      l.map weight = (l.map spot).map weigh := by
    intro l hl
    rw [List.map_map]
    exact List.map_congr_left hl
  rw [hspots l hl, hspots l' hl']
  exact (h.map weigh).sum_eq

end Finding

namespace Comparison

open Finding (CountsLines spot)

section Spots

variable {baseline current : Report} (hb : CountsLines baseline.findings)
  (hc : CountsLines current.findings)

include hb hc

theorem countP_unchanged (k : Text × Text × Option Nat) :
    (ofReports baseline current).unchanged.countP (·.spot = k) =
      min (baseline.findings.countP (·.spot = k)) (current.findings.countP (·.spot = k)) := by
  have hunchanged : CountsLines (ofReports baseline current).unchanged := fun f hf =>
    hc f ((perm_current baseline current).mem_iff.mp (List.mem_append_left _ hf))
  rcases Finding.countP_spot_cases k with hnone | hkey
  · rw [hnone _ hunchanged, hnone _ hb, Nat.zero_min]
  · rw [hkey _ hunchanged, hkey _ hb, hkey _ hc, countP_key_unchanged]

theorem countP_found (k : Text × Text × Option Nat) :
    (found baseline current).countP (·.spot = k) =
      min (baseline.findings.countP (·.spot = k)) (current.findings.countP (·.spot = k)) := by
  have hfound : CountsLines (found baseline current) := fun f hf =>
    hb f ((perm_baseline baseline current).mem_iff.mp (List.mem_append_left _ hf))
  rcases Finding.countP_spot_cases k with hnone | hkey
  · rw [hnone _ hfound, hnone _ hb, Nat.zero_min]
  · rw [hkey _ hfound, hkey _ hb, hkey _ hc, countP_key_found]

theorem countP_added (k : Text × Text × Option Nat) :
    (ofReports baseline current).added.countP (·.spot = k) =
      current.findings.countP (·.spot = k) -
        min (baseline.findings.countP (·.spot = k)) (current.findings.countP (·.spot = k)) := by
  have hall := (perm_current baseline current).countP_eq (·.spot = k)
  rw [List.countP_append, countP_unchanged hb hc] at hall
  omega

theorem countP_resolved (k : Text × Text × Option Nat) :
    (ofReports baseline current).resolved.countP (·.spot = k) =
      baseline.findings.countP (·.spot = k) -
        min (baseline.findings.countP (·.spot = k)) (current.findings.countP (·.spot = k)) := by
  have hall := (perm_baseline baseline current).countP_eq (·.spot = k)
  rw [List.countP_append, countP_found hb hc] at hall
  omega

theorem hasNew_iff :
    (ofReports baseline current).hasNew ↔
      ∃ k, baseline.findings.countP (·.spot = k) < current.findings.countP (·.spot = k) := by
  rw [hasNew, Bool.not_eq_true', List.isEmpty_eq_false_iff_exists_mem]
  constructor
  · intro hadded
    obtain ⟨f, hf⟩ := hadded
    have hpos : 0 < (ofReports baseline current).added.countP (·.spot = f.spot) :=
      List.countP_pos_iff.mpr ⟨f, hf, by simp⟩
    rw [countP_added hb hc] at hpos
    exact ⟨f.spot, by omega⟩
  · intro hmore
    obtain ⟨k, hk⟩ := hmore
    have hpos : 0 < (ofReports baseline current).added.countP (·.spot = k) := by
      rw [countP_added hb hc]
      omega
    obtain ⟨f, hf, -⟩ := List.countP_pos_iff.mp hpos
    exact ⟨f, hf⟩

/-- The weights of the findings that are found again cancel out. -/
theorem delta_eq {weigh : Text × Text × Option Nat → Int}
    (hwb : ∀ f ∈ baseline.findings, f.weight = weigh f.spot)
    (hwc : ∀ f ∈ current.findings, f.weight = weigh f.spot)
    (hsb : baseline.score = (baseline.findings.map Finding.weight).sum)
    (hsc : current.score = (current.findings.map Finding.weight).sum) :
    (ofReports baseline current).delta =
      ((ofReports baseline current).added.map Finding.weight).sum -
        ((ofReports baseline current).resolved.map Finding.weight).sum := by
  have hcurrent := ((perm_current baseline current).map Finding.weight).sum_eq
  have hbaseline := ((perm_baseline baseline current).map Finding.weight).sum_eq
  rw [List.map_append, List.sum_append] at hcurrent hbaseline
  -- What is in both reports weighs the same in each, though it is kept only once.
  have hagain : ((ofReports baseline current).unchanged.map Finding.weight).sum =
      ((found baseline current).map Finding.weight).sum := by
    have hspots : ((ofReports baseline current).unchanged.map Finding.spot).Perm
        ((found baseline current).map Finding.spot) :=
      Finding.perm_map_spot fun k => by rw [countP_unchanged hb hc, countP_found hb hc]
    refine Finding.sum_weight_eq weigh (fun f hf => ?_) (fun f hf => ?_) hspots
    · exact hwc f ((perm_current baseline current).mem_iff.mp (List.mem_append_left _ hf))
    · exact hwb f ((perm_baseline baseline current).mem_iff.mp (List.mem_append_left _ hf))
  have hdelta : (ofReports baseline current).delta = current.score - baseline.score := rfl
  rw [hdelta, hsc, hsb, ← hcurrent, ← hbaseline, hagain]
  omega

end Spots

/-! ## The difference -/

/-- Each of the three lists has the same spots in both comparisons, and each spot as often. -/
structure SameSpots (c d : Comparison) : Prop where
  added : (c.added.map spot).Perm (d.added.map spot)
  resolved : (c.resolved.map spot).Perm (d.resolved.map spot)
  unchanged : (c.unchanged.map spot).Perm (d.unchanged.map spot)

/-- The comparison read backwards. -/
def swap (c : Comparison) : Comparison :=
  ⟨c.resolved, c.added, c.unchanged, c.currentScore, c.baselineScore⟩

variable {baseline current : Report} (hb : CountsLines baseline.findings)
  (hc : CountsLines current.findings)

include hb hc

theorem sameSpots_of_perm {baseline' current' : Report}
    (hbaseline : baseline'.findings.Perm baseline.findings)
    (hcurrent : current'.findings.Perm current.findings) :
    SameSpots (ofReports baseline' current') (ofReports baseline current) := by
  have hb' : CountsLines baseline'.findings := fun f hf => hb f (hbaseline.mem_iff.mp hf)
  have hc' : CountsLines current'.findings := fun f hf => hc f (hcurrent.mem_iff.mp hf)
  constructor <;> refine Finding.perm_map_spot fun k => ?_
  · rw [countP_added hb' hc', countP_added hb hc, hbaseline.countP_eq, hcurrent.countP_eq]
  · rw [countP_resolved hb' hc', countP_resolved hb hc, hbaseline.countP_eq, hcurrent.countP_eq]
  · rw [countP_unchanged hb' hc', countP_unchanged hb hc, hbaseline.countP_eq, hcurrent.countP_eq]

theorem sameSpots_swap :
    SameSpots (ofReports current baseline) (ofReports baseline current).swap := by
  constructor <;> refine Finding.perm_map_spot fun k => ?_
  · rw [countP_added hc hb, swap, countP_resolved hb hc, Nat.min_comm]
  · rw [countP_resolved hc hb, swap, countP_added hb hc, Nat.min_comm]
  · rw [countP_unchanged hc hb, swap, countP_unchanged hb hc, Nat.min_comm]

/-- If `b` findings of the baseline and `c` of the current report are at one spot, then `min b c` of
the current report are unchanged, its others are new, and the others of the baseline are resolved.
So it does not matter in which order the reports list their findings, and exchanging the reports
exchanges what is new and what is resolved. Where scores are sums of weights, and the spot decides
what a finding weighs, the score changes by what is new less what is resolved. -/
theorem ofReports_difference :
    (∀ k : Text × Text × Option Nat,
      (ofReports baseline current).unchanged.countP (·.spot = k) =
        min (baseline.findings.countP (·.spot = k)) (current.findings.countP (·.spot = k)) ∧
      (ofReports baseline current).added.countP (·.spot = k) =
        current.findings.countP (·.spot = k) -
          min (baseline.findings.countP (·.spot = k)) (current.findings.countP (·.spot = k)) ∧
      (ofReports baseline current).resolved.countP (·.spot = k) =
        baseline.findings.countP (·.spot = k) -
          min (baseline.findings.countP (·.spot = k)) (current.findings.countP (·.spot = k))) ∧
    ((ofReports baseline current).unchanged ++ (ofReports baseline current).added).Perm
      current.findings ∧
    (ofReports baseline current).resolved.Subperm baseline.findings ∧
    ((ofReports baseline current).hasNew ↔
      ∃ k, baseline.findings.countP (·.spot = k) < current.findings.countP (·.spot = k)) ∧
    (∀ baseline' current' : Report, baseline'.findings.Perm baseline.findings →
      current'.findings.Perm current.findings →
        SameSpots (ofReports baseline' current') (ofReports baseline current)) ∧
    SameSpots (ofReports current baseline) (ofReports baseline current).swap ∧
    ∀ weigh : Text × Text × Option Nat → Int,
      (∀ f ∈ baseline.findings, f.weight = weigh f.spot) →
      (∀ f ∈ current.findings, f.weight = weigh f.spot) →
      baseline.score = (baseline.findings.map Finding.weight).sum →
      current.score = (current.findings.map Finding.weight).sum →
        (ofReports baseline current).delta =
          ((ofReports baseline current).added.map Finding.weight).sum -
            ((ofReports baseline current).resolved.map Finding.weight).sum := by
  have hresolved : (ofReports baseline current).resolved.Subperm baseline.findings :=
    (List.sublist_append_right (found baseline current) _).subperm.trans
      (perm_baseline baseline current).subperm
  refine ⟨fun k => ⟨?_, ?_, ?_⟩, perm_current baseline current, hresolved, hasNew_iff hb hc, ?_,
    sameSpots_swap hb hc, fun weigh => delta_eq hb hc⟩
  · exact countP_unchanged hb hc k
  · exact countP_added hb hc k
  · exact countP_resolved hb hc k
  · exact fun baseline' current' => sameSpots_of_perm hb hc

omit hb hc

/-- A finding of the rule `R` in the file `f`. -/
def findingAt (line : Option Nat) (weight : Int) (snippet : Text) : Finding :=
  ⟨.codePatterns, "R".ascii, builtinSource, .low, "f".ascii, line, snippet, weight⟩

def reportOf (findings : List Finding) : Report :=
  ⟨[], [], [], (findings.map Finding.weight).sum, .clean, [], [], findings, 0, [], 0, 0⟩

/-- Two findings at one line, and one without a line. -/
def twins : Report :=
  reportOf [findingAt (some 3) 5 "a".ascii, findingAt none 2 [], findingAt (some 3) 5 "b".ascii]

/-- Three findings at that line, and one at another. -/
def triplets : Report :=
  reportOf [findingAt (some 3) 5 "c".ascii, findingAt (some 3) 5 "d".ascii,
    findingAt (some 4) 1 [], findingAt (some 3) 5 "e".ascii]

theorem ofReports_difference_twins :
    (ofReports twins triplets).unchanged.countP (·.spot = ("R".ascii, "f".ascii, some 3)) = 2 ∧
    (ofReports twins triplets).added.countP (·.spot = ("R".ascii, "f".ascii, some 3)) = 1 ∧
    (ofReports twins triplets).resolved.countP (·.spot = ("R".ascii, "f".ascii, none)) = 1 ∧
    (ofReports twins triplets).hasNew ∧
    ((ofReports twins triplets).added.map Finding.weight).sum -
      ((ofReports twins triplets).resolved.map Finding.weight).sum = 4 := by
  have htwins : CountsLines twins.findings := by unfold CountsLines; decide
  have htriplets : CountsLines triplets.findings := by unfold CountsLines; decide
  obtain ⟨hcounts, -, -, hnew, -, -, hdelta⟩ := ofReports_difference htwins htriplets
  refine ⟨(hcounts _).1.trans (by decide), (hcounts _).2.1.trans (by decide),
    (hcounts _).2.2.trans (by decide),
    hnew.mpr ⟨("R".ascii, "f".ascii, some 3), by decide⟩, ?_⟩
  -- Only the line decides what these findings weigh.
  have hweigh := hdelta (fun spot =>
    if spot.2.2 = some 3 then 5 else if spot.2.2 = none then 2 else 1)
    (by decide) (by decide) rfl rfl
  exact hweigh.symm.trans (by decide)

end Comparison

end Triage
