import Mathlib.Algebra.Order.BigOperators.Group.List
import Mathlib.Data.List.Perm.Subperm
import Triage.Proofs.Draft

/-!
The score and the verdict of a report.

Weights are added one by one, and adding stops at the first that is negative or leads past the
highest score. As long as no weight is negative the running sum never falls, so adding is stopped
somewhere if and only if the whole sum is too high (`Score.compute_eq_ok_iff`); where it is stopped
depends on the order of the findings, whether it is does not. All that `Draft.finalize` says of a
score follows from that: the check at its end finds what was just computed.
-/

namespace Triage

/-! ## Sums of weights -/

namespace Score

theorem sum_weight_nonneg {findings : List Finding} (h : ∀ f ∈ findings, 0 ≤ f.weight) :
    0 ≤ (findings.map Finding.weight).sum := by
  refine List.sum_nonneg fun w hw => ?_
  obtain ⟨f, hf, rfl⟩ := List.mem_map.mp hw
  exact h f hf

theorem addWeights_eq_ok_iff {total s : Int} (findings : List Finding) (htotal : total ≤ max) :
    addWeights total findings = .ok s ↔
      (∀ f ∈ findings, 0 ≤ f.weight) ∧ total + (findings.map Finding.weight).sum = s ∧ s ≤ max := by
  -- by induction on the findings, with what has been added up so far
  induction findings generalizing total with
  | nil =>
    simp only [addWeights, Except.ok.injEq, List.not_mem_nil, false_imp_iff, implies_true,
      List.map_nil, List.sum_nil, Int.add_zero, true_and]
    constructor
    · rintro rfl
      exact ⟨rfl, htotal⟩
    · exact And.left
  | cons f rest ih =>
    rw [addWeights, List.forall_mem_cons, List.map_cons, List.sum_cons, ← Int.add_assoc]
    by_cases hneg : f.weight < 0
    · rw [if_pos hneg]
      exact ⟨fun h => (nomatch h), fun h => absurd h.1.1 (by omega)⟩
    · rw [if_neg hneg]
      by_cases hover : total + f.weight > max
      · -- What comes after is not negative, so it does not bring the sum back.
        rw [if_pos hover]
        refine ⟨fun h => (nomatch h), fun ⟨⟨_, hrest⟩, hsum, hs⟩ => ?_⟩
        have hnonneg := sum_weight_nonneg hrest
        omega
      · rw [if_neg hover, ih (by omega)]
        have hfirst : 0 ≤ f.weight := by omega
        simp only [hfirst, true_and]

/-- Adding stops at a negative weight or at a sum that is too high. -/
theorem addWeights_eq_error {total : Int} {e : ScoreError} {findings : List Finding}
    (h : addWeights total findings = .error e) :
    e = .overflow ∨ ∃ f ∈ findings, f.weight < 0 ∧ e = .negativeWeight f.rule f.file := by
  induction findings generalizing total with
  | nil => exact nomatch h
  | cons f rest ih =>
    rw [addWeights] at h
    by_cases hneg : f.weight < 0
    · rw [if_pos hneg] at h
      exact Or.inr ⟨f, List.mem_cons_self, hneg, (Except.error.inj h).symm⟩
    · rw [if_neg hneg] at h
      by_cases hover : total + f.weight > max
      · rw [if_pos hover] at h
        exact Or.inl (Except.error.inj h).symm
      · rw [if_neg hover] at h
        refine (ih h).imp_right fun ⟨g, hg, hfault⟩ => ?_
        exact ⟨g, List.mem_cons_of_mem f hg, hfault⟩

/-- Findings have a score if no weight is negative and their sum is not too high. -/
theorem compute_eq_ok_iff {s : Int} (findings : List Finding) :
    compute findings = .ok s ↔
      (∀ f ∈ findings, 0 ≤ f.weight) ∧ (findings.map Finding.weight).sum = s ∧ s ≤ max := by
  rw [compute, addWeights_eq_ok_iff findings (by decide), Int.zero_add]

theorem compute_eq_ok_perm {findings findings' : List Finding} (h : findings.Perm findings')
    {s : Int} : compute findings = .ok s ↔ compute findings' = .ok s := by
  simp only [compute_eq_ok_iff, h.mem_iff, (h.map Finding.weight).sum_eq]

theorem nonneg_of_compute {findings : List Finding} {s : Int} (h : compute findings = .ok s) :
    0 ≤ s := by
  obtain ⟨hweights, rfl, -⟩ := (compute_eq_ok_iff findings).mp h
  exact sum_weight_nonneg hweights

/-- A part of the findings scores no more than all of them. -/
theorem compute_le_of_subperm {findings findings' : List Finding} (h : findings.Subperm findings')
    {s s' : Int} (hs : compute findings = .ok s) (hs' : compute findings' = .ok s') : s ≤ s' := by
  obtain ⟨_, rfl, -⟩ := (compute_eq_ok_iff findings).mp hs
  obtain ⟨hweights, rfl, -⟩ := (compute_eq_ok_iff findings').mp hs'
  obtain ⟨part, hpart, hsub⟩ := h
  obtain ⟨rest, hperm⟩ := hsub.exists_perm_append
  have hrest := sum_weight_nonneg fun f hf =>
    hweights f (hperm.mem_iff.mpr (List.mem_append_right part hf))
  have hsum := (hperm.map Finding.weight).sum_eq
  rw [List.map_append, List.sum_append, (hpart.map Finding.weight).sum_eq] at hsum
  omega

/-! ## Verdicts -/

theorem verdict_of_nonneg {s : Int} (h : 0 ≤ s) : verdict s = .ok (Verdict.ofScore s.toNat) := by
  rw [verdict, if_neg (by omega)]

theorem rank_ofScore (n : Nat) : (Verdict.ofScore n).rank =
    if n = 0 then 0 else if n < 10 then 1 else if n < 25 then 2 else if n < 50 then 3 else 4 := by
  unfold Verdict.ofScore
  split_ifs <;> rfl

theorem rank_ofScore_mono {m n : Nat} (h : m ≤ n) :
    (Verdict.ofScore m).rank ≤ (Verdict.ofScore n).rank := by
  rw [rank_ofScore, rank_ofScore]
  split_ifs <;> omega

/-- Only the score of the findings and the verdict on it are accepted. -/
theorem verify_eq_ok_iff {s : Int} {v : Verdict} (findings : List Finding) :
    verify s v findings = .ok () ↔ compute findings = .ok s ∧ verdict s = .ok v := by
  rw [verify]
  cases hsum : compute findings with
  | error e => simp [bind, Except.bind]
  | ok sum =>
    by_cases hs : sum = s
    · subst hs
      rw [verdict_of_nonneg (nonneg_of_compute hsum)]
      by_cases hv : Verdict.ofScore sum.toNat = v <;> simp [bind, Except.bind, pure, Except.pure,
        throw, throwThe, MonadExceptOf.throw, hv]
    · simp [bind, Except.bind, throw, throwThe, MonadExceptOf.throw, hs]

end Score

/-! ## The score of a draft -/

namespace Draft

variable {d : Draft} {item target : Text} {time : Int}

/-- A draft is finished as soon as its findings have a score: the check of score and verdict never
fails. -/
theorem finalize_of_compute {s : Int} (h : Score.compute (Finding.sort d.findings) = .ok s)
    (item target : Text) (time : Int) :
    ∃ r, d.finalize item target time = .ok r ∧ r.score = s ∧
      r.verdict = Verdict.ofScore s.toNat := by
  have hverdict := Score.verdict_of_nonneg (Score.nonneg_of_compute h)
  have hverify := (Score.verify_eq_ok_iff _).mpr ⟨h, hverdict⟩
  simp only [finalize, h, hverdict, hverify, bind, Except.bind, pure, Except.pure]
  exact ⟨_, rfl, rfl, rfl⟩

theorem finalize_eq_error_iff {e : ScoreError} :
    d.finalize item target time = .error e ↔ Score.compute (Finding.sort d.findings) = .error e := by
  constructor
  · intro h
    cases hcompute : Score.compute (Finding.sort d.findings) with
    | ok s =>
      obtain ⟨r, hr, -⟩ := finalize_of_compute hcompute item target time
      exact nomatch h.symm.trans hr
    | error e' =>
      simp only [finalize, hcompute, bind, Except.bind, Except.error.injEq] at h
      rw [h]
  · intro h
    simp only [finalize, h, bind, Except.bind]

theorem compute_of_finalize {r : Report} (h : d.finalize item target time = .ok r) :
    Score.compute d.findings = .ok r.score ∧ r.verdict = Verdict.ofScore r.score.toNat := by
  cases hcompute : Score.compute (Finding.sort d.findings) with
  | error e => exact nomatch h.symm.trans (finalize_eq_error_iff.mpr hcompute)
  | ok s =>
    obtain ⟨r', hr', rfl, hverdict⟩ := finalize_of_compute hcompute item target time
    obtain rfl := Except.ok.inj (h.symm.trans hr')
    exact ⟨(Score.compute_eq_ok_perm (Finding.perm_sort _)).mp hcompute, hverdict⟩

theorem verdict_of_finalize {r : Report} (h : d.finalize item target time = .ok r) :
    Score.verdict r.score = .ok r.verdict := by
  obtain ⟨hcompute, hverdict⟩ := compute_of_finalize h
  rw [Score.verdict_of_nonneg (Score.nonneg_of_compute hcompute), hverdict]

/-- With the findings of a report, only its own score and verdict are accepted. -/
theorem verify_of_finalize {r : Report} (h : d.finalize item target time = .ok r) (s : Int)
    (v : Verdict) : Score.verify s v r.findings = .ok () ↔ s = r.score ∧ v = r.verdict := by
  have hcompute : Score.compute r.findings = .ok r.score := by
    rw [findings_of_finalize h]
    exact (Score.compute_eq_ok_perm (Finding.perm_sort _)).mpr (compute_of_finalize h).1
  have hverdict := verdict_of_finalize h
  rw [Score.verify_eq_ok_iff, hcompute]
  constructor
  · rintro ⟨hs, hv⟩
    obtain rfl := Except.ok.inj hs
    exact ⟨rfl, Except.ok.inj (hv.symm.trans hverdict)⟩
  · rintro ⟨rfl, rfl⟩
    exact ⟨rfl, hverdict⟩

/-- **What a report makes of its findings.** A draft can be finished if and only if no weight is
negative and the weights add up to no more than a signed word holds; otherwise it is the computation
of the score that fails. The score is the sum, the verdict is that on the score, and no other score
or verdict is accepted with the findings. The order of the findings does not matter, and a part of
the findings never gets a higher verdict than all of them. -/
theorem finalize_scores (d : Draft) (item target : Text) (time : Int) :
    ((∃ r, d.finalize item target time = .ok r) ↔
      (∀ f ∈ d.findings, 0 ≤ f.weight) ∧ (d.findings.map Finding.weight).sum ≤ 2 ^ 31 - 1) ∧
    (∀ e, d.finalize item target time = .error e →
      Score.compute (Finding.sort d.findings) = .error e ∧
      (e = .overflow ∨ ∃ f ∈ d.findings, f.weight < 0 ∧ e = .negativeWeight f.rule f.file)) ∧
    ∀ r, d.finalize item target time = .ok r →
      r.score = (d.findings.map Finding.weight).sum ∧
      Score.verdict r.score = .ok r.verdict ∧
      (∀ s v, Score.verify s v r.findings = .ok () ↔ s = r.score ∧ v = r.verdict) ∧
      (∀ d' : Draft, d'.findings.Perm d.findings → ∀ item' target' time',
        ∃ r', d'.finalize item' target' time' = .ok r' ∧
          r'.score = r.score ∧ r'.verdict = r.verdict) ∧
      ∀ (d' : Draft) item' target' time' r', d'.findings.Subperm d.findings →
        d'.finalize item' target' time' = .ok r' → r'.verdict.rank ≤ r.verdict.rank := by
  refine ⟨⟨?_, ?_⟩, ?_, ?_⟩
  · rintro ⟨r, hr⟩
    obtain ⟨hweights, hsum, hmax⟩ :=
      (Score.compute_eq_ok_iff _).mp (compute_of_finalize hr).1
    exact ⟨hweights, hsum.trans_le hmax⟩
  · rintro ⟨hweights, hmax⟩
    have hcompute := (Score.compute_eq_ok_iff _).mpr ⟨hweights, rfl, hmax⟩
    obtain ⟨r, hr, -⟩ :=
      finalize_of_compute ((Score.compute_eq_ok_perm (Finding.perm_sort _)).mpr hcompute) item target
        time
    exact ⟨r, hr⟩
  · intro e he
    have hcompute := finalize_eq_error_iff.mp he
    refine ⟨hcompute, (Score.addWeights_eq_error hcompute).imp_right fun ⟨f, hf, hfault⟩ => ?_⟩
    exact ⟨f, (Finding.perm_sort _).mem_iff.mp hf, hfault⟩
  · intro r hr
    obtain ⟨hcompute, hverdict⟩ := compute_of_finalize hr
    obtain ⟨-, hsum, -⟩ := (Score.compute_eq_ok_iff _).mp hcompute
    refine ⟨hsum.symm, verdict_of_finalize hr, verify_of_finalize hr, ?_, ?_⟩
    · intro d' hperm item' target' time'
      have hcompute' := (Score.compute_eq_ok_perm
        ((Finding.perm_sort d'.findings).trans hperm)).mpr hcompute
      obtain ⟨r', hr', hscore', hverdict'⟩ :=
        finalize_of_compute hcompute' item' target' time'
      exact ⟨r', hr', hscore', hverdict'.trans hverdict.symm⟩
    · intro d' item' target' time' r' hsub hr'
      obtain ⟨hcompute', hverdict'⟩ := compute_of_finalize hr'
      rw [hverdict, hverdict']
      exact Score.rank_ofScore_mono (Int.toNat_le_toNat
        (Score.compute_le_of_subperm hsub hcompute' hcompute))

end Draft

end Triage
