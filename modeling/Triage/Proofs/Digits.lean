import Mathlib.Algebra.Group.Nat.Defs
import Triage.Proofs.Order
import Triage.Proofs.Text

/-!
Rows of digits of one length.

Such rows are ordered byte by byte as the numbers that they stand for
(`lt_iff_digitsValue_lt`). A padded number is such a row if it fits into its width, and stands for
the number, so padded numbers are ordered as the numbers are (`padNat_lt_padNat`).
-/

namespace Triage

namespace Text

/-! ## Texts of one length -/

/-- What stands behind texts of one length does not matter to their order. -/
theorem append_lt_append {s t : Text} (hlength : s.length = t.length) (h : s < t) (x y : Text) :
    s ++ x < t ++ y := by
  induction s generalizing t with
  | nil =>
    rw [List.length_eq_zero_iff.mp hlength.symm] at h
    exact absurd h (List.lt_irrefl _)
  | cons b s ih =>
    cases t with
    | nil => contradiction
    | cons c t =>
      rw [List.cons_lt_cons_iff] at h
      rw [List.cons_append, List.cons_append, List.cons_lt_cons_iff]
      exact h.imp_right (.imp_right (ih (Nat.succ_inj.mp hlength)))

/-! ## Values -/

variable {s t : Text} {n m width : Nat}

/-- Digits that are read after a number has been read already. -/
theorem foldl_digits (s : Text) (a : Nat) :
    s.foldl (fun n b => 10 * n + (b - 48).toNat) a = a * 10 ^ s.length + digitsValue s := by
  induction s generalizing a with
  | nil => simp [digitsValue]
  | cons b s ih =>
    have hvalue : digitsValue (b :: s) = (b - 48).toNat * 10 ^ s.length + digitsValue s := by
      rw [digitsValue, List.foldl_cons, ih, Nat.mul_zero, Nat.zero_add]
    calc (b :: s).foldl (fun n b => 10 * n + (b - 48).toNat) a
        = (10 * a + (b - 48).toNat) * 10 ^ s.length + digitsValue s := ih _
      _ = a * (10 ^ s.length * 10) + ((b - 48).toNat * 10 ^ s.length + digitsValue s) := by
        rw [Nat.add_mul, Nat.add_assoc, Nat.mul_comm 10 a, Nat.mul_assoc, Nat.mul_comm 10]
      _ = a * 10 ^ (b :: s).length + digitsValue (b :: s) := by
        rw [hvalue, List.length_cons, Nat.pow_succ]

theorem digitsValue_cons (b : UInt8) (s : Text) :
    digitsValue (b :: s) = (b - 48).toNat * 10 ^ s.length + digitsValue s := by
  rw [digitsValue, List.foldl_cons, foldl_digits, Nat.mul_zero, Nat.zero_add]

theorem digitsValue_zeros_append (k : Nat) (s : Text) :
    digitsValue (List.replicate k 48 ++ s) = digitsValue s := by
  induction k with
  | zero => rfl
  | succ k ih =>
    rw [List.replicate_succ, List.cons_append, digitsValue_cons, ih]
    simp

theorem digit_toNat {b : UInt8} (h : Byte.isDigit b) : (b - 48).toNat = b.toNat - 48 ∧
    48 ≤ b.toNat ∧ b.toNat ≤ 57 := by
  simp only [Byte.isDigit, Bool.and_eq_true, decide_eq_true_eq] at h
  exact ⟨UInt8.toNat_sub_of_le _ _ h.1, UInt8.le_iff_toNat_le.mp h.1, UInt8.le_iff_toNat_le.mp h.2⟩

theorem digitsValue_lt (h : ∀ b ∈ s, Byte.isDigit b) : digitsValue s < 10 ^ s.length := by
  induction s with
  | nil => simp [digitsValue]
  | cons b s ih =>
    have hb := digit_toNat (h b List.mem_cons_self)
    have hs := ih fun c hc => h c (List.mem_cons_of_mem _ hc)
    have hdigit : (b - 48).toNat * 10 ^ s.length ≤ 9 * 10 ^ s.length :=
      Nat.mul_le_mul_right _ (by omega)
    rw [digitsValue_cons, List.length_cons, Nat.pow_succ]
    omega

theorem digitsValue_lt_of_lt (hs : ∀ b ∈ s, Byte.isDigit b) (ht : ∀ b ∈ t, Byte.isDigit b)
    (hlength : s.length = t.length) (h : s < t) : digitsValue s < digitsValue t := by
  -- along both numerals at once; the first digits that differ decide
  induction s generalizing t with
  | nil =>
    rw [List.length_eq_zero_iff.mp hlength.symm] at h
    exact absurd h (List.lt_irrefl _)
  | cons b s ih =>
    cases t with
    | nil => exact absurd h (List.not_lt_nil _)
    | cons c t =>
      rw [List.forall_mem_cons] at hs ht
      have hlength' : s.length = t.length := Nat.succ_inj.mp hlength
      rw [digitsValue_cons, digitsValue_cons, hlength']
      rcases List.cons_lt_cons_iff.mp h with hbc | ⟨rfl, hst⟩
      · -- A larger digit counts for more than all digits behind the smaller one.
        have hb := digit_toNat hs.1
        have hc := digit_toNat ht.1
        have hvalue := digitsValue_lt hs.2
        rw [UInt8.lt_iff_toNat_lt] at hbc
        have hdigit : ((b - 48).toNat + 1) * 10 ^ t.length ≤ (c - 48).toNat * 10 ^ t.length :=
          Nat.mul_le_mul_right _ (by omega)
        rw [hlength'] at hvalue
        rw [Nat.add_mul, Nat.one_mul] at hdigit
        omega
      · exact Nat.add_lt_add_left (ih hs.2 ht.2 hlength' hst) _

theorem lt_iff_digitsValue_lt (hs : ∀ b ∈ s, Byte.isDigit b) (ht : ∀ b ∈ t, Byte.isDigit b)
    (hlength : s.length = t.length) : s < t ↔ digitsValue s < digitsValue t := by
  refine ⟨digitsValue_lt_of_lt hs ht hlength, fun h => ?_⟩
  rcases lt_trichotomous s t with hst | rfl | hts
  · exact hst
  · exact absurd h (Nat.lt_irrefl _)
  · exact absurd (digitsValue_lt_of_lt ht hs hlength.symm hts) (Nat.lt_asymm h)

/-! ## Padded numbers -/

theorem isDigit_of_mem_padNat {b : UInt8} (h : b ∈ padNat width n) : Byte.isDigit b := by
  rcases List.mem_append.mp h with h | h
  · rw [List.eq_of_mem_replicate h]
    decide
  · exact isDigit_of_mem_ofNat h

theorem digitsValue_padNat (width n : Nat) : digitsValue (padNat width n) = n := by
  rw [padNat, digitsValue_zeros_append, digitsValue_ofNat]

theorem length_padNat (hwidth : 0 < width) (h : n < 10 ^ width) :
    (padNat width n).length = width := by
  have hdigits : (ofNat n).length ≤ width := by
    rw [ofNat, List.length_map]
    exact (Nat.length_toDigits_le_iff (by decide) hwidth).mpr h
  rw [padNat, List.length_append, List.length_replicate]
  omega

theorem padNat_lt_padNat (h : n < m) (hm : m < 10 ^ width) : padNat width n < padNat width m := by
  have hwidth : 0 < width := by
    refine Nat.pos_of_ne_zero fun hzero => ?_
    rw [hzero, Nat.pow_zero] at hm
    omega
  rw [lt_iff_digitsValue_lt (fun _ => isDigit_of_mem_padNat) (fun _ => isDigit_of_mem_padNat),
    digitsValue_padNat, digitsValue_padNat]
  · exact h
  · rw [length_padNat hwidth hm, length_padNat hwidth (Nat.lt_trans h hm)]

end Text

end Triage
