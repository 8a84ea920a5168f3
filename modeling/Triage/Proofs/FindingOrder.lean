import Mathlib.Data.List.Nodup
import Triage.Proofs.OrderIndependence

/-!
The order in which reports list their findings.

Findings are ordered by file, line, rule and source, and a finding without a line comes before those
on a line (`Finding.Before`). As long as line numbers fit into signed words, sorting gives the one
list that holds the same findings in this order and keeps those of one place as they came
(`sortedFrom_iff`).
-/

namespace Triage

namespace Finding

/-! ## The order of places -/

/-- No line comes before all lines, and lines come by their numbers. -/
inductive LineBefore : Option Nat → Option Nat → Prop where
  | none_some (n : Nat) : LineBefore none (some n)
  | some_some {m n : Nat} (h : m < n) : LineBefore (some m) (some n)

/-- The finding comes before another one: by file, byte by byte, then by line, rule and source. -/
def Before (f g : Finding) : Prop :=
  f.file < g.file ∨ f.file = g.file ∧
    (LineBefore f.line g.line ∨ f.line = g.line ∧
      (f.rule < g.rule ∨ f.rule = g.rule ∧ f.source < g.source))

/-- The line of the finding, if it has one, has a number that fits into a signed word. -/
def LineFits (f : Finding) : Prop := ∀ n ∈ f.line, n < 2 ^ 63

variable {f g : Finding} {l l' m : List Finding}

theorem lineRank_lt_iff (hf : f.LineFits) (hg : g.LineFits) :
    lineRank f.line < lineRank g.line ↔ LineBefore f.line g.line := by
  have hnone : lineRank none = -1 := rfl
  have hsome : ∀ {n}, n < 2 ^ 63 → lineRank (some n) = n := fun h => by
    rw [lineRank_some (by omega), if_pos h]
  unfold LineFits at hf hg
  cases hfl : f.line with
  | none =>
    cases hgl : g.line with
    | none => exact iff_of_false (by simp) nofun
    | some n =>
      rw [hnone, hsome (hg n hgl)]
      exact iff_of_true (by omega) (.none_some n)
  | some m =>
    cases hgl : g.line with
    | none =>
      rw [hnone, hsome (hf m hfl)]
      exact iff_of_false (by omega) nofun
    | some n =>
      rw [hsome (hf m hfl), hsome (hg n hgl), Int.ofNat_lt]
      exact ⟨.some_some, fun | .some_some h => h⟩

theorem lineRank_eq_iff_of_fits (hf : f.LineFits) (hg : g.LineFits) :
    lineRank f.line = lineRank g.line ↔ f.line = g.line := by
  have hword : ∀ {f : Finding}, f.LineFits → ∀ n ∈ f.line, n < 2 ^ 64 := fun hf n hn =>
    Nat.lt_trans (hf n hn) (by decide)
  have hlast : ∀ {f : Finding}, f.LineFits → f.line ≠ some lastLine := fun hf h =>
    absurd (hf _ h) (by decide)
  rw [lineRank_eq_iff (hword hf) (hword hg), or_iff_left]
  -- Only a line far beyond those that fit is confused with no line.
  rintro (⟨-, hline⟩ | ⟨hline, -⟩)
  · exact hlast hg hline
  · exact hlast hf hline

theorem sortKey_eq_iff_place (hf : f.LineFits) (hg : g.LineFits) :
    f.sortKey = g.sortKey ↔ f.place = g.place := by
  simp only [sortKey, place, Prod.mk.injEq, lineRank_eq_iff_of_fits hf hg]

theorem precedes_iff_before (hf : f.LineFits) (hg : g.LineFits) : f.precedes g ↔ f.Before g := by
  simp only [precedes, Before, Bool.or_eq_true, Bool.and_eq_true, decide_eq_true_eq, beq_iff_eq,
    lineRank_lt_iff hf hg, lineRank_eq_iff_of_fits hf hg]

/-! ## Sorting -/

/-- The list has the findings of `l`, in order, and those of one place as they came. -/
structure SortedFrom (l m : List Finding) : Prop where
  perm : m.Perm l
  ascending : m.Pairwise fun f g => ¬ g.Before f
  stable : ∀ place, m.filter (·.place = place) = l.filter (·.place = place)

theorem filter_sortKey_eq (hl : ∀ f ∈ l, f.LineFits) (hf : f.LineFits) :
    l.filter (·.sortKey = f.sortKey) = l.filter (·.place = f.place) :=
  List.filter_congr fun g hg => by
    rw [decide_eq_decide]
    exact sortKey_eq_iff_place (hl g hg) hf

theorem pairwise_precedes_iff (hl : ∀ f ∈ l, f.LineFits) :
    l.Pairwise (fun f g => !g.precedes f) ↔ l.Pairwise fun f g => ¬ g.Before f :=
  List.Pairwise.iff_of_mem fun hf hg => by
    rw [← precedes_iff_before (hl _ hg) (hl _ hf), Bool.not_eq_true', Bool.not_eq_true]

theorem sortedFrom_sort (hl : ∀ f ∈ l, f.LineFits) : SortedFrom l (sort l) where
  perm := perm_sort l
  ascending := by
    refine (pairwise_precedes_iff fun f hf => hl f ((perm_sort l).mem_iff.mp hf)).mp ?_
    exact List.pairwise_mergeSort precedes_keyed.trans precedes_keyed.total l
  stable place := by
    refine precedes_keyed.filter_mergeSort_of_ties fun f hf g hg hfp hgp => ?_
    rw [sortKey_eq_iff_place (hl f hf) (hl g hg), of_decide_eq_true hfp, of_decide_eq_true hgp]

/-- Sorting gives the one list in order that keeps findings of one place as they came. -/
theorem sortedFrom_iff (hl : ∀ f ∈ l, f.LineFits) : SortedFrom l m ↔ m = sort l := by
  refine ⟨fun h => ?_, fun h => h ▸ sortedFrom_sort hl⟩
  have hm : ∀ f ∈ m, f.LineFits := fun f hf => hl f (h.perm.mem_iff.mp hf)
  refine precedes_keyed.eq_of_filter_eq ((pairwise_precedes_iff hm).mpr h.ascending)
    (List.pairwise_mergeSort precedes_keyed.trans precedes_keyed.total l) fun key => ?_
  rw [sort, precedes_keyed.filter_mergeSort]
  by_cases hkey : ∃ f ∈ l, f.sortKey = key
  · obtain ⟨f, hf, rfl⟩ := hkey
    rw [filter_sortKey_eq hm (hl f hf), filter_sortKey_eq hl (hl f hf), h.stable]
  · have hnone : l.filter (·.sortKey = key) = [] := by
      rw [List.filter_eq_nil_iff]
      exact fun f hf hfkey => hkey ⟨f, hf, of_decide_eq_true hfkey⟩
    have hperm := h.perm.filter (·.sortKey = key)
    rw [hnone] at hperm ⊢
    exact hperm.eq_nil

theorem sort_sort (l : List Finding) : sort (sort l) = sort l :=
  List.mergeSort_of_pairwise (List.pairwise_mergeSort precedes_keyed.trans precedes_keyed.total l)

theorem sort_eq_of_perm (hl : ∀ f ∈ l, f.LineFits) (h : l.Perm l')
    (hplaces : (l.map place).Nodup) : sort l = sort l' :=
  precedes_keyed.mergeSort_eq_of_perm h fun f hf g hg hkey =>
    List.inj_on_of_nodup_map hplaces hf hg ((sortKey_eq_iff_place (hl f hf) (hl g hg)).mp hkey)

/-- Sorting puts findings in the order of their places and keeps those of one place as they came. So
it changes nothing when done again, and the order in which findings come does not matter if no two
have one place. What comes first is a strict weak order, be the lines as large as they may. -/
theorem sort_orders :
    (∀ l m : List Finding, (∀ f ∈ l, f.LineFits) → (m = sort l ↔ SortedFrom l m)) ∧
    (∀ l, sort (sort l) = sort l) ∧
    (∀ l l' : List Finding, (∀ f ∈ l, f.LineFits) → l.Perm l' →
      (l.map place).Nodup → sort l = sort l') ∧
    IsStrictWeakOrder Finding fun f g => f.precedes g = true :=
  ⟨fun _ _ hl => (sortedFrom_iff hl).symm, sort_sort, fun _ _ => sort_eq_of_perm,
    precedes_keyed.isStrictWeakOrder⟩

/-- Findings of two files, of which one is about the whole file. -/
def scattered : List Finding :=
  let finding (file : String) (line : Option Nat) (rule : String) : Finding :=
    ⟨.codePatterns, rule.ascii, builtinSource, .low, file.ascii, line, [], 1⟩
  [finding "b.py" (some 3) "CODE-001", finding "a.py" (some 10) "CODE-002",
   finding "a.py" none "PROV-001", finding "a.py" (some 7) "CODE-001",
   finding "a.py" (some 10) "CODE-001"]

theorem sort_orders_scattered :
    (∀ f ∈ scattered, f.LineFits) ∧ (scattered.map place).Nodup ∧
      SortedFrom scattered (sort scattered) ∧ sort scattered = sort scattered.reverse := by
  have hfits : ∀ f ∈ scattered, f.LineFits := by simp [scattered, LineFits]
  have hplaces : (scattered.map place).Nodup := by decide +kernel
  exact ⟨hfits, hplaces, (sort_orders.1 _ _ hfits).mp rfl,
    sort_orders.2.2.1 _ _ hfits (List.reverse_perm _).symm hplaces⟩

end Finding

end Triage
