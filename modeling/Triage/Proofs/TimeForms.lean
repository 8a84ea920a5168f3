import Mathlib.Algebra.Ring.Nat
import Mathlib.Data.List.Forall2
import Triage.Proofs.Calendar
import Triage.Proofs.Digits
import Triage.Quarantine
import Triage.Report.Storage

/-!
The written forms of times.

All three forms write the fields of a stamp one after the other, each padded to a width of its own
(`written`). So they order times as they order texts (`written_lt_written`), and so do the ids and
file names that start with them. The form with separators can be read back (`parse?_iso`).
-/

namespace Triage

namespace Time

/-! ## Forms -/

/-- How the fields of a stamp are written: the width of each, and the mark behind it. -/
abbrev Form := List (Nat × Text)

def written : Form → List Int → Text
  | (width, mark) :: form, n :: fields => field width n ++ mark ++ written form fields
  | _, _ => []

def isoForm : Form :=
  [(4, "-".ascii), (2, "-".ascii), (2, "T".ascii), (2, ":".ascii), (2, ":".ascii), (2, "Z".ascii)]

def compactForm : Form := [(4, []), (2, []), (2, "T".ascii), (2, []), (2, []), (2, "Z".ascii)]

def idStampForm : Form := [(4, []), (2, []), (2, "_".ascii), (2, []), (2, []), (2, [])]

theorem iso_eq (t : Int) : iso t = written isoForm (stampOf t).fields := by
  simp [iso, written, isoForm, Stamp.fields]

theorem compact_eq (t : Int) : compact t = written compactForm (stampOf t).fields := by
  simp [compact, written, compactForm, Stamp.fields]

theorem idStamp_eq (t : Int) : idStamp t = written idStampForm (stampOf t).fields := by
  simp [idStamp, written, idStampForm, Stamp.fields]

/-- A field of that width has room for the number. -/
def FitsIn (width : Nat) (n : Int) : Prop := 0 < width ∧ 0 ≤ n ∧ n < 10 ^ width

def Fits (entry : Nat × Text) (n : Int) : Prop := FitsIn entry.1 n

variable {form : Form} {fields fields' : List Int} {width : Nat} {n m : Int} {t u : Int}

theorem toNat_lt_of_lt (h : n < 10 ^ width) : n.toNat < 10 ^ width := by
  have hpow : ((10 ^ width : Nat) : Int) = 10 ^ width := by simp
  have hpos : 0 < 10 ^ width := Nat.pow_pos (by decide)
  omega

theorem length_field (hwidth : 0 < width) (h : n < 10 ^ width) : (field width n).length = width :=
  Text.length_padNat hwidth (toNat_lt_of_lt h)

theorem mem_written {b : UInt8} (h : b ∈ written form fields) :
    Byte.isDigit b ∨ ∃ entry ∈ form, b ∈ entry.2 := by
  induction form generalizing fields with
  | nil => contradiction
  | cons entry form ih =>
    cases fields with
    | nil => contradiction
    | cons n fields =>
      rcases List.mem_append.mp h with h | h
      · rcases List.mem_append.mp h with h | h
        · exact .inl (Text.isDigit_of_mem_padNat h)
        · exact .inr ⟨entry, List.mem_cons_self, h⟩
      · exact (ih h).imp_right fun ⟨other, hother, hb⟩ =>
          ⟨other, List.mem_cons_of_mem _ hother, hb⟩

theorem not_mem_iso {b : UInt8} (hdigit : ¬ Byte.isDigit b)
    (hmarks : ∀ entry ∈ isoForm, b ∉ entry.2) (t : Int) : b ∉ iso t := by
  intro h
  rw [iso_eq] at h
  rcases mem_written h with hb | ⟨entry, hentry, hmark⟩
  · exact hdigit hb
  · exact hmarks entry hentry hmark

theorem length_written (h : List.Forall₂ Fits form fields) :
    (written form fields).length = (form.map fun entry => entry.1 + entry.2.length).sum := by
  induction h with
  | nil => rfl
  | cons hfits _ ih =>
    rw [written, List.length_append, List.length_append, length_field hfits.1 hfits.2.2, ih,
      List.map_cons, List.sum_cons]

/-- Fields of fixed widths are ordered as texts in the order of their numbers. -/
theorem written_lt_written (h : List.Forall₂ Fits form fields)
    (h' : List.Forall₂ Fits form fields') (hlt : fields < fields') :
    written form fields < written form fields' := by
  induction h generalizing fields' with
  | nil =>
    cases h'
    exact absurd hlt (List.lt_irrefl _)
  | @cons entry n form fields hfits _ ih =>
    cases h' with
    | @cons _ m _ fields' hfits' htail =>
      rw [written, written, List.append_assoc, List.append_assoc]
      rcases List.cons_lt_cons_iff.mp hlt with hnm | ⟨rfl, hrest⟩
      · refine Text.append_lt_append ?_ ?_ _ _
        · rw [length_field hfits.1 hfits.2.2, length_field hfits.1 hfits'.2.2]
        · refine Text.padNat_lt_padNat ?_ (toNat_lt_of_lt hfits'.2.2)
          have := hfits.2.1
          omega
      · exact List.append_left_lt (List.append_left_lt (ih htail hrest))

/-! ## Stamps in range -/

/-- The widths of the fields of a stamp are the same in all forms. -/
def widths : List Nat := [4, 2, 2, 2, 2, 2]

theorem Stamp.InRange.fits {s : Stamp} (h : s.InRange) (hform : form.map Prod.fst = widths) :
    List.Forall₂ Fits form s.fields := by
  have hwidths : List.Forall₂ FitsIn widths s.fields := by
    obtain ⟨hyear, hmonth, hday, hhour, hminute, hsecond⟩ := h
    simp only [widths, Stamp.fields, List.forall₂_cons, FitsIn, List.Forall₂.nil, and_true]
    omega
  rw [← hform, List.forall₂_map_left_iff] at hwidths
  exact hwidths

theorem written_stampOf_lt (hform : form.map Prod.fst = widths) (ht : t.natAbs ≤ lastSecond)
    (hu : u.natAbs ≤ lastSecond) (h : t < u) :
    written form (stampOf t).fields < written form (stampOf u).fields :=
  written_lt_written ((inRange_stampOf ht).fits hform) ((inRange_stampOf hu).fits hform)
    (fields_stampOf_lt h)

theorem iso_lt (ht : t.natAbs ≤ lastSecond) (hu : u.natAbs ≤ lastSecond) (h : t < u) :
    iso t < iso u := by
  rw [iso_eq, iso_eq]
  exact written_stampOf_lt rfl ht hu h

theorem compact_lt (ht : t.natAbs ≤ lastSecond) (hu : u.natAbs ≤ lastSecond) (h : t < u) :
    compact t < compact u := by
  rw [compact_eq, compact_eq]
  exact written_stampOf_lt rfl ht hu h

theorem idStamp_lt (ht : t.natAbs ≤ lastSecond) (hu : u.natAbs ≤ lastSecond) (h : t < u) :
    idStamp t < idStamp u := by
  rw [idStamp_eq, idStamp_eq]
  exact written_stampOf_lt rfl ht hu h

theorem length_compact (ht : t.natAbs ≤ lastSecond) : (compact t).length = 16 := by
  rw [compact_eq, length_written ((inRange_stampOf ht).fits rfl)]
  rfl

theorem length_idStamp (ht : t.natAbs ≤ lastSecond) : (idStamp t).length = 15 := by
  rw [idStamp_eq, length_written ((inRange_stampOf ht).fits rfl)]
  rfl

/-! ## Reading -/

/-- A digit is no white space and no sign. -/
theorem marks_of_isDigit {b : UInt8} (h : Byte.isDigit b) :
    Byte.isSpace b = false ∧ b ≠ 43 ∧ b ≠ 45 := by
  have hb := Text.digit_toNat h
  refine ⟨?_, ?_, ?_⟩
  · simp only [Byte.isSpace, Bool.or_eq_false_iff, beq_eq_false_iff_ne, Bool.and_eq_false_iff,
      decide_eq_false_iff_not, UInt8.le_iff_toNat_le, ne_eq, ← UInt8.toNat_inj, UInt8.reduceToNat]
    omega
  · rintro rfl
    exact absurd hb (by decide)
  · rintro rfl
    exact absurd hb (by decide)

theorem number?_field (h : FitsIn width n) (rest : Text) :
    number? width (field width n ++ rest) = some (n, rest) := by
  have hlength := length_field h.1 h.2.2
  have hdigits : ∀ b ∈ field width n, Byte.isDigit b := fun b => Text.isDigit_of_mem_padNat
  have hvalue : (Text.digitsValue (field width n) : Int) = n := by
    rw [field, Text.digitsValue_padNat, Int.toNat_of_nonneg h.2.1]
  generalize field width n = digits at hlength hdigits hvalue
  have htaken : ((digits ++ rest).take width).takeWhile Byte.isDigit = digits := by
    rw [List.take_left' hlength, List.takeWhile_eq_self_iff]
    exact hdigits
  cases digits with
  | nil => exact absurd hlength (Nat.ne_of_lt h.1)
  | cons b digits =>
    -- A field starts with a digit, so neither a space nor a sign is skipped before it.
    obtain ⟨hspace, hplus, hminus⟩ := marks_of_isDigit (hdigits b List.mem_cons_self)
    have hdrop : (b :: digits ++ rest).dropWhile Byte.isSpace = b :: digits ++ rest :=
      List.dropWhile_cons_of_neg (by simp [hspace])
    simp only [number?, hdrop]
    split
    · next heq => exact absurd (List.cons.inj heq).1 hplus
    · next heq => exact absurd (List.cons.inj heq).1 hminus
    · simp only [List.drop_zero, htaken]
      simp [hvalue]

theorem numberThen?_field (h : FitsIn width n) (mark : UInt8) (rest : Text) :
    numberThen? width mark (field width n ++ [mark] ++ rest) = some (n, rest) := by
  rw [numberThen?, List.append_assoc, number?_field h]
  simp

theorem stamp?_iso (ht : t.natAbs ≤ lastSecond) : stamp? (iso t) = some (stampOf t) := by
  have hfits : List.Forall₂ Fits isoForm (stampOf t).fields := (inRange_stampOf ht).fits rfl
  have hiso := iso_eq t
  generalize stampOf t = s at hfits hiso ⊢
  simp only [isoForm, Stamp.fields, List.forall₂_cons, Fits] at hfits
  obtain ⟨hyear, hmonth, hday, hhour, hminute, hsecond, -⟩ := hfits
  rw [stamp?, Text.before_of_not_mem (not_mem_iso (by decide) (by decide) t), hiso]
  have hdash : "-".ascii = ['-'.ascii] := rfl
  have hT : "T".ascii = ['T'.ascii] := rfl
  have hcolon : ":".ascii = [':'.ascii] := rfl
  simp only [isoForm, Stamp.fields, written, hdash, hT, hcolon, numberThen?_field hyear,
    numberThen?_field hmonth, numberThen?_field hday, numberThen?_field hhour,
    numberThen?_field hminute, List.append_assoc _ "Z".ascii, number?_field hsecond,
    Option.bind_eq_bind, Option.bind_some]
  rfl

theorem parse?_iso (ht : t.natAbs ≤ lastSecond) (hne : t ≠ -1) : parse? (iso t) = some t := by
  rw [parse?, stamp?_iso ht]
  simp only [seconds_stampOf, beq_iff_eq, hne, if_false, onClock_eq_self ht]

/-! ## Names that start with a time -/

theorem exists_candidate_eq (t : Int) (descriptor : Text) (n : Nat) : ∃ rest,
    Quarantine.candidate (Quarantine.baseId t descriptor) n = idStamp t ++ rest := by
  unfold Quarantine.candidate Quarantine.baseId
  split
  · exact ⟨"_".ascii ++ ItemId.slugify descriptor, List.append_assoc ..⟩
  · exact ⟨"_".ascii ++ ItemId.slugify descriptor ++ "_".ascii ++ Text.ofNat n,
      by simp only [List.append_assoc]⟩

theorem exists_fileStem_eq (stamp : Text) (n : Nat) :
    ∃ rest, Report.fileStem stamp n = stamp ++ rest := by
  unfold Report.fileStem
  split
  · exact ⟨[], (List.append_nil _).symm⟩
  · exact ⟨_, List.append_assoc ..⟩

theorem candidate_lt (ht : t.natAbs ≤ lastSecond) (hu : u.natAbs ≤ lastSecond) (h : t < u)
    (descriptor descriptor' : Text) (n m : Nat) :
    Quarantine.candidate (Quarantine.baseId t descriptor) n <
      Quarantine.candidate (Quarantine.baseId u descriptor') m := by
  obtain ⟨rest, hrest⟩ := exists_candidate_eq t descriptor n
  obtain ⟨rest', hrest'⟩ := exists_candidate_eq u descriptor' m
  rw [hrest, hrest']
  exact Text.append_lt_append (by rw [length_idStamp ht, length_idStamp hu])
    (idStamp_lt ht hu h) _ _

theorem fileStem_lt (ht : t.natAbs ≤ lastSecond) (hu : u.natAbs ≤ lastSecond) (h : t < u)
    (n m : Nat) (ending : Text) :
    Report.fileStem (compact t) n ++ ending < Report.fileStem (compact u) m ++ ending := by
  obtain ⟨rest, hrest⟩ := exists_fileStem_eq (compact t) n
  obtain ⟨rest', hrest'⟩ := exists_fileStem_eq (compact u) m
  rw [hrest, hrest', List.append_assoc, List.append_assoc]
  exact Text.append_lt_append (by rw [length_compact ht, length_compact hu])
    (compact_lt ht hu h) _ _

/-- A time that the clock can hold is read back from its written form, unless it is the one that
reading takes for a failure. All three forms order times as texts, and so the ids of items and the
names of report files come in the order of the times at which they were made. -/
theorem forms_chronological (t : Int) (ht : t.natAbs ≤ lastSecond) :
    (t ≠ -1 → parse? (iso t) = some t) ∧
    ∀ u : Int, u.natAbs ≤ lastSecond → t < u →
      iso t < iso u ∧ compact t < compact u ∧ idStamp t < idStamp u ∧
      (∀ descriptor descriptor' n m,
        Quarantine.candidate (Quarantine.baseId t descriptor) n <
          Quarantine.candidate (Quarantine.baseId u descriptor') m) ∧
      ∀ n m ending, Report.fileStem (compact t) n ++ ending <
        Report.fileStem (compact u) m ++ ending :=
  ⟨parse?_iso ht, fun _ hu h => ⟨iso_lt ht hu h, compact_lt ht hu h, idStamp_lt ht hu h,
    candidate_lt ht hu h, fileStem_lt ht hu h⟩⟩

/-- The last second of a leap day in the year 2000 and the first one that the clock can hold. -/
theorem forms_chronological_leapDay :
    (951868799 : Int).natAbs ≤ lastSecond ∧ (-9223372036 : Int).natAbs ≤ lastSecond ∧
      parse? (iso 951868799) = some 951868799 ∧ iso (-9223372036) < iso 951868799 ∧
      iso 951868799 = "2000-02-29T23:59:59Z".ascii ∧
      iso (-9223372036) = "1677-09-21T00:12:44Z".ascii := by
  have hlast : (951868799 : Int).natAbs ≤ lastSecond := by decide
  have hfirst : (-9223372036 : Int).natAbs ≤ lastSecond := by decide
  exact ⟨hlast, hfirst, (forms_chronological _ hlast).1 (by decide),
    ((forms_chronological _ hfirst).2 _ hlast (by decide)).1, by decide +kernel, by decide +kernel⟩

end Time

end Triage
