import Mathlib.Data.List.Basic
import Mathlib.Data.Prod.Basic
import Mathlib.Order.RelClasses
import Triage.Report.Draft

/-!
The orders of reports, and what sorting by them forgets.

Findings, components and notes are each sorted by a key. A stable sort keeps the elements of one key
in the order in which they came and forgets all else about that order: two lists with the same
elements under each key, in the same order, are sorted into one list
(`Keyed.mergeSort_eq_iff`).
-/

namespace Triage

/-! ## Texts -/

theorem Text.lt_trichotomous (s t : Text) : s < t ∨ s = t ∨ t < s := by
  induction s generalizing t with
  | nil => cases t <;> simp
  | cons a s ih =>
    cases t with
    | nil => simp
    | cons b t =>
      rw [List.cons_lt_cons_iff, List.cons_lt_cons_iff]
      rcases Nat.lt_trichotomy a.toNat b.toNat with h | h | h
      · exact Or.inl (Or.inl (UInt8.lt_iff_toNat_lt.mpr h))
      · obtain rfl : a = b := UInt8.toNat_inj.mp h
        rcases ih t with hst | rfl | hts
        · exact Or.inl (Or.inr ⟨rfl, hst⟩)
        · exact Or.inr (Or.inl rfl)
        · exact Or.inr (Or.inr (Or.inr ⟨rfl, hts⟩))
      · exact Or.inr (Or.inr (Or.inl (UInt8.lt_iff_toNat_lt.mpr h)))

instance : IsStrictTotalOrder Text (· < ·) where
  trichotomous s t hst hts := by
    rcases Text.lt_trichotomous s t with h | h | h
    · exact absurd h hst
    · exact h
    · exact absurd h hts
  irrefl s := by
    induction s with
    | nil => simp
    | cons a s ih => simp [ih]
  trans _ _ _ hst htu := List.lt_trans hst htu

/-! ## Sorting by a key -/

/-- `before` says that the key of one element comes before that of another. -/
structure Keyed {α κ : Type} (before : α → α → Bool) (key : α → κ) (r : κ → κ → Prop) : Prop where
  strict : IsStrictTotalOrder κ r
  iff : ∀ a b, before a b = true ↔ r (key a) (key b)

namespace Keyed

variable {α κ : Type} {before : α → α → Bool} {key : α → κ} {r : κ → κ → Prop}

theorem trans (K : Keyed before key r) (a b c : α) :
    !before b a → !before c b → !before c a := by
  have := K.strict
  simp only [Bool.not_eq_true', ← Bool.not_eq_true, K.iff]
  intro hab hbc hca
  rcases trichotomous_of r (key a) (key b) with h | h | h
  · exact hbc (IsTrans.trans _ _ _ hca h)
  · exact hbc (h ▸ hca)
  · exact hab h

theorem total (K : Keyed before key r) (a b : α) : (!before b a || !before a b) := by
  have := K.strict
  simp only [Bool.or_eq_true, Bool.not_eq_true', ← Bool.not_eq_true, K.iff]
  by_cases h : r (key b) (key a)
  · exact Or.inr (asymm h)
  · exact Or.inl h

/-- Elements of which neither comes first have one key. -/
theorem key_eq (K : Keyed before key r) {a b : α} (hab : !before b a) (hba : !before a b) :
    key a = key b := by
  have := K.strict
  simp only [Bool.not_eq_true', ← Bool.not_eq_true, K.iff] at hab hba
  rcases trichotomous_of r (key a) (key b) with h | h | h
  · exact absurd h hba
  · exact h
  · exact absurd h hab

theorem le_of_key_eq (K : Keyed before key r) {a b : α} (h : key a = key b) : !before b a := by
  have := K.strict
  simp only [Bool.not_eq_true', ← Bool.not_eq_true, K.iff, h]
  exact irrefl _

theorem isStrictWeakOrder (K : Keyed before key r) :
    IsStrictWeakOrder α fun a b => before a b = true where
  irrefl a := by simpa using K.le_of_key_eq (a := a) rfl
  trans a b c := by
    have := K.strict
    simp only [K.iff]
    exact IsTrans.trans _ _ _
  incomp_trans a b c hab hbc := by
    simp only [Bool.not_eq_true, ← Bool.not_eq_true'] at hab hbc ⊢
    exact ⟨K.trans c b a hbc.1 hab.1, K.trans a b c hab.2 hbc.2⟩

/-- Elements that tie stay in the order in which they came. -/
theorem filter_mergeSort_of_ties (K : Keyed before key r) {l : List α} {p : α → Bool}
    (hp : ∀ a ∈ l, ∀ b ∈ l, p a → p b → key a = key b) :
    (l.mergeSort fun a b => !before b a).filter p = l.filter p := by
  have hperm : ((l.mergeSort fun a b => !before b a).filter p).Perm (l.filter p) :=
    (List.mergeSort_perm l _).filter _
  have htie : (l.filter p).Pairwise fun a b => !before b a := by
    refine List.pairwise_of_forall_mem_list fun a ha b hb => K.le_of_key_eq ?_
    rw [List.mem_filter] at ha hb
    exact hp a ha.1 b hb.1 ha.2 hb.2
  -- The elements that tie are a sublist of the sorted ones, and there are no more of them.
  have hsub := List.sublist_mergeSort K.trans K.total htie List.filter_sublist
  have hfilter := hsub.filter p
  rw [List.filter_filter] at hfilter
  simp only [Bool.and_self] at hfilter
  exact (hfilter.eq_of_length hperm.length_eq.symm).symm

theorem filter_mergeSort [DecidableEq κ] (K : Keyed before key r) (l : List α) (k : κ) :
    (l.mergeSort fun a b => !before b a).filter (key · = k) = l.filter (key · = k) :=
  K.filter_mergeSort_of_ties fun a _ b _ ha hb => by
    rw [of_decide_eq_true ha, of_decide_eq_true hb]

/-- Lists in order with the same elements under each key, in the same order, are equal. -/
theorem eq_of_filter_eq [DecidableEq κ] (K : Keyed before key r) :
    ∀ {l l' : List α}, l.Pairwise (fun a b => !before b a) → l'.Pairwise (fun a b => !before b a) →
      (∀ k, l.filter (key · = k) = l'.filter (key · = k)) → l = l'
  | [], [], _, _, _ => rfl
  | [], b :: l', _, _, h => by simpa using h (key b)
  | a :: l, [], _, _, h => by simpa using h (key a)
  | a :: l, b :: l', hl, hl', h => by
    -- Each head is in the other list as well, so neither comes before the other.
    have hab : key a = key b := by
      have hb : b ∈ a :: l := by
        have : b ∈ (a :: l).filter (key · = key b) := by rw [h]; simp
        exact (List.mem_filter.mp this).1
      have ha : a ∈ b :: l' := by
        have : a ∈ (b :: l').filter (key · = key a) := by rw [← h]; simp
        exact (List.mem_filter.mp this).1
      rcases List.mem_cons.mp hb with rfl | hb
      · rfl
      rcases List.mem_cons.mp ha with rfl | ha
      · rfl
      exact K.key_eq (List.rel_of_pairwise_cons hl hb) (List.rel_of_pairwise_cons hl' ha)
    have hhead := h (key b)
    rw [List.filter_cons_of_pos (by simpa using hab), List.filter_cons_of_pos (by simp)] at hhead
    obtain ⟨rfl, -⟩ := List.cons.inj hhead
    have htail : ∀ k, l.filter (key · = k) = l'.filter (key · = k) := by
      intro k
      have hk := h k
      by_cases hak : key a = k
      · simpa [hak] using hk
      · simpa [hak] using hk
    rw [K.eq_of_filter_eq hl.of_cons hl'.of_cons htail]

/-- Elements with different keys come in one order, whatever list they are sorted from. -/
theorem mergeSort_eq_of_perm (K : Keyed before key r) {l l' : List α} (h : l.Perm l')
    (hinj : ∀ a ∈ l, ∀ b ∈ l, key a = key b → a = b) :
    (l.mergeSort fun a b => !before b a) = l'.mergeSort fun a b => !before b a := by
  have hperm := List.mergeSort_perm l fun a b => !before b a
  refine List.Perm.eq_of_pairwise (fun a b ha hb hab hba => ?_)
    (List.pairwise_mergeSort K.trans K.total _) (List.pairwise_mergeSort K.trans K.total _)
    (hperm.trans (h.trans (List.mergeSort_perm _ _).symm))
  exact hinj a (hperm.mem_iff.mp ha) b (h.mem_iff.mpr ((List.mergeSort_perm _ _).mem_iff.mp hb))
    (K.key_eq hab hba)

/-- Sorting forgets the order of elements with different keys, and no more. -/
theorem mergeSort_eq_iff [DecidableEq κ] (K : Keyed before key r) (l l' : List α) :
    ((l.mergeSort fun a b => !before b a) = l'.mergeSort fun a b => !before b a) ↔
      ∀ k, l.filter (key · = k) = l'.filter (key · = k) := by
  constructor
  · intro h k
    rw [← K.filter_mergeSort l k, h, K.filter_mergeSort]
  · intro h
    refine K.eq_of_filter_eq (List.pairwise_mergeSort K.trans K.total l)
      (List.pairwise_mergeSort K.trans K.total l') fun k => ?_
    rw [K.filter_mergeSort, K.filter_mergeSort, h]

/-- What is left out of a list does not matter to the order of the rest. -/
theorem filter_mergeSort_comm [DecidableEq κ] (K : Keyed before key r) (p : α → Bool) (l : List α) :
    (l.mergeSort fun a b => !before b a).filter p =
      (l.filter p).mergeSort fun a b => !before b a := by
  refine K.eq_of_filter_eq ((List.pairwise_mergeSort K.trans K.total l).filter p)
    (List.pairwise_mergeSort K.trans K.total _) fun k => ?_
  calc ((l.mergeSort fun a b => !before b a).filter p).filter (key · = k)
      = ((l.mergeSort fun a b => !before b a).filter (key · = k)).filter p := List.filter_comm ..
    _ = (l.filter (key · = k)).filter p := by rw [K.filter_mergeSort]
    _ = (l.filter p).filter (key · = k) := List.filter_comm ..
    _ = ((l.filter p).mergeSort fun a b => !before b a).filter (key · = k) :=
        (K.filter_mergeSort _ k).symm

end Keyed

/-! ## Findings, components and notes -/

theorem Finding.precedes_keyed :
    Keyed Finding.precedes Finding.sortKey
      (Prod.Lex (· < ·) (Prod.Lex (· < ·) (Prod.Lex (· < ·) (· < ·)))) where
  strict := {}
  iff a b := by simp [Finding.precedes, Finding.sortKey, Prod.lex_def]

theorem Finding.perm_sort (l : List Finding) : (Finding.sort l).Perm l := List.mergeSort_perm l _

theorem Component.name_keyed :
    Keyed (fun a b : Component => decide (a.name < b.name)) Component.name (· < ·) where
  strict := inferInstance
  iff a b := by simp

theorem Note.precedes_keyed :
    Keyed Note.precedes (fun n => (n.component, n.message)) (Prod.Lex (· < ·) (· < ·)) where
  strict := {}
  iff a b := by simp [Note.precedes, Prod.lex_def]

end Triage
