import Mathlib.Data.List.Infix
import Mathlib.Data.List.TakeWhile
import Triage.Text

/-!
Texts that are cut, trimmed, put together, and written for numbers.

A text without the separator is one piece, and a cut at a separator is a cut of what stands before
it and of what stands after it (`splitOn_of_not_mem`, `splitOn_append`), and joining undoes it
(`splitOn_joinWith`, `joinWith_splitOn`). Trimming leaves all that stands from one byte that is no
blank to another (`trim_append_cons`). A written number holds digits only and can be read back
(`isDigit_of_mem_ofNat`, `digitsValue_ofNat`).
-/

namespace Triage

namespace Text

/-! ## Cutting at a separator -/

theorem splitOn_ne_nil (sep : UInt8) (s : Text) : splitOn sep s ≠ [] := by
  cases s with
  | nil => exact List.cons_ne_nil _ _
  | cons b s =>
    rw [splitOn_cons]
    unfold consPiece
    split <;> split <;> exact List.cons_ne_nil _ _

theorem splitOn_of_not_mem {sep : UInt8} {s : Text} (h : sep ∉ s) : splitOn sep s = [s] := by
  induction s with
  | nil => rfl
  | cons b s ih =>
    obtain ⟨hb, hs⟩ := not_or.mp fun hmem => h (List.mem_cons.mpr hmem)
    rw [splitOn_cons, ih hs, consPiece, if_neg (by simpa using Ne.symm hb)]

theorem splitOn_append (sep : UInt8) (a b : Text) :
    splitOn sep (a ++ sep :: b) = splitOn sep a ++ splitOn sep b := by
  induction a with
  | nil =>
    have hb := splitOn_ne_nil sep b
    rw [List.nil_append, splitOn_cons]
    cases hs : splitOn sep b with
    | nil => exact absurd hs hb
    | cons piece rest => simp [consPiece, splitOn]
  | cons c a ih =>
    have ha := splitOn_ne_nil sep a
    rw [List.cons_append, splitOn_cons, splitOn_cons, ih]
    cases hs : splitOn sep a with
    | nil => exact absurd hs ha
    | cons piece rest =>
      simp only [consPiece, List.cons_append]
      split <;> rfl

theorem pieces_append (a b : Text) :
    pieces (a ++ Byte.lineFeed :: b) = splitOn Byte.lineFeed a ++ pieces b := by
  have hb := splitOn_ne_nil Byte.lineFeed b
  simp only [pieces, splitOn_append, List.getLast?_append, List.getLast?_eq_some_getLast hb,
    Option.some_or]
  split
  · exact List.dropLast_append_of_ne_nil hb
  · rfl

/-- The bytes of a piece come from the text, and none is the separator. -/
theorem mem_of_mem_splitOn {sep b : UInt8} {s piece : Text} (hpiece : piece ∈ splitOn sep s)
    (hb : b ∈ piece) : b ∈ s ∧ b ≠ sep := by
  induction s generalizing piece with
  | nil =>
    obtain rfl : piece = [] := by simpa [splitOn] using hpiece
    contradiction
  | cons c s ih =>
    rw [splitOn_cons] at hpiece
    unfold consPiece at hpiece
    split at hpiece
    · rename_i hnil
      exact absurd hnil (splitOn_ne_nil sep s)
    · rename_i first rest hsplit
      rw [hsplit] at ih
      -- The byte starts the first piece, or separates a new one from it.
      split at hpiece
      · rcases List.mem_cons.mp hpiece with rfl | hpiece
        · contradiction
        · exact (ih hpiece hb).imp_left (List.mem_cons_of_mem _)
      · rename_i hc
        rcases List.mem_cons.mp hpiece with rfl | hpiece
        · rcases List.mem_cons.mp hb with rfl | hb
          · exact ⟨List.mem_cons_self, by simpa using hc⟩
          · exact (ih List.mem_cons_self hb).imp_left (List.mem_cons_of_mem _)
        · exact (ih (List.mem_cons_of_mem _ hpiece) hb).imp_left (List.mem_cons_of_mem _)

/-- The first piece is empty if the text is, or starts with a separator. Another one is if the text
ends with a separator or has two in a row. -/
theorem exists_splitOn_eq (sep : UInt8) (s : Text) : ∃ piece rest, splitOn sep s = piece :: rest ∧
    (piece = [] ↔ s = [] ∨ s.head? = some sep) ∧
    ([] ∈ rest ↔ s.getLast? = some sep ∨ [sep, sep] <:+: s) := by
  -- The first piece tells what the text starts with, the others where separators meet.
  induction s with
  | nil => exact ⟨[], [], rfl, by simp, by simp⟩
  | cons b s ih =>
    obtain ⟨piece, rest, hs, hpiece, hrest⟩ := ih
    rw [splitOn_cons, hs, consPiece]
    by_cases hb : b = sep
    · subst hb
      refine ⟨[], piece :: rest, by simp, by simp, ?_⟩
      rw [List.mem_cons, hrest, eq_comm, hpiece, List.infix_cons_iff, List.getLast?_cons]
      cases s with
      | nil => simp
      | cons c s =>
        simp only [reduceCtorEq, false_or, List.head?_cons, List.cons_prefix_cons,
          List.nil_prefix, and_true, true_and, List.getLast?_cons, Option.getD_some,
          Option.some.injEq]
        rw [or_left_comm, eq_comm (a := c)]
    · refine ⟨b :: piece, rest, by simp [hb], by simp [hb], ?_⟩
      rw [hrest, List.infix_cons_iff, List.getLast?_cons]
      cases s with
      | nil => simp [hb]
      | cons c s =>
        simp [List.cons_prefix_cons, Ne.symm hb, List.getLast?_cons]

theorem nil_mem_splitOn_iff {sep : UInt8} {s : Text} : [] ∈ splitOn sep s ↔
    s = [] ∨ s.head? = some sep ∨ s.getLast? = some sep ∨ [sep, sep] <:+: s := by
  obtain ⟨piece, rest, hs, hpiece, hrest⟩ := exists_splitOn_eq sep s
  rw [hs, List.mem_cons, eq_comm, hpiece, hrest, or_assoc]

theorem before_of_not_mem {sep : UInt8} {s : Text} (h : sep ∉ s) : before sep s = s := by
  rw [before, List.takeWhile_eq_self_iff]
  intro b hb
  simpa using fun e : b = sep => h (e ▸ hb)

theorem after_of_not_mem {sep : UInt8} {s : Text} (h : sep ∉ s) : after sep s = [] := by
  have hnone : s.dropWhile (· != sep) = [] := by
    rw [List.dropWhile_eq_nil_iff]
    intro b hb
    simpa using fun e : b = sep => h (e ▸ hb)
  rw [after, hnone]
  rfl

theorem before_append_cons {sep : UInt8} {s : Text} (h : sep ∉ s) (rest : Text) :
    before sep (s ++ sep :: rest) = s := by
  rw [before, List.takeWhile_append_of_pos fun b hb => by
    simpa using fun heq : b = sep => h (heq ▸ hb)]
  simp

theorem after_append_cons {sep : UInt8} {s : Text} (h : sep ∉ s) (rest : Text) :
    after sep (s ++ sep :: rest) = rest := by
  rw [after, List.dropWhile_append_of_pos fun b hb => by
    simpa using fun heq : b = sep => h (heq ▸ hb)]
  simp

/-! ## Dropping bytes at the ends -/

/-- Bytes are dropped only up to one that is to stay. -/
theorem dropWhile_append_cons {p : UInt8 → Bool} {b : UInt8} (hb : p b = false)
    (start rest : Text) :
    (start ++ b :: rest).dropWhile p = start.dropWhile p ++ b :: rest := by
  have hcons : (b :: rest).dropWhile p = b :: rest := List.dropWhile_cons_of_neg (by simp [hb])
  rw [List.dropWhile_append, hcons]
  split
  · next h => rw [List.isEmpty_iff.mp h, List.nil_append]
  · rfl

theorem takeWhile_append_cons {p : UInt8 → Bool} {b : UInt8} (hb : p b = false)
    (start rest : Text) : (start ++ b :: rest).takeWhile p = start.takeWhile p := by
  have hcons : (b :: rest).takeWhile p = [] := List.takeWhile_cons_of_neg (by simp [hb])
  rw [List.takeWhile_append, hcons]
  split
  · next h => rw [List.append_nil, (List.takeWhile_prefix p).eq_of_length h]
  · rfl

/-- What is taken up to a stop, and what is left from it on. -/
theorem span_append {p : UInt8 → Bool} {start rest : Text} (hstart : ∀ b ∈ start, p b = true)
    (hrest : rest.head?.any p = false) :
    (start ++ rest).takeWhile p = start ∧ (start ++ rest).dropWhile p = rest := by
  rw [List.takeWhile_append_of_pos hstart, List.dropWhile_append_of_pos hstart]
  cases rest with
  | nil => simp
  | cons b rest =>
    have hb : p b = false := by simpa using hrest
    rw [List.takeWhile_cons_of_neg (by simp [hb]), List.dropWhile_cons_of_neg (by simp [hb])]
    simp

theorem trimLeft_append_cons {b : UInt8} (hb : Byte.isBlank b = false) (start rest : Text) :
    trimLeft (start ++ b :: rest) = trimLeft start ++ b :: rest :=
  dropWhile_append_cons hb start rest

theorem trimRight_append_cons {b : UInt8} (hb : Byte.isBlank b = false) (start tail : Text) :
    trimRight (start ++ b :: tail) = start ++ b :: trimRight tail := by
  simp [trimRight, dropWhile_append_cons hb]

theorem trimRight_append {s : Text} (h : ∀ b ∈ s.getLast?, Byte.isBlank b = false) (tail : Text) :
    trimRight (s ++ tail) = s ++ trimRight tail := by
  rcases List.eq_nil_or_concat' s with rfl | ⟨front, b, rfl⟩
  · rfl
  · rw [List.append_assoc, List.append_assoc, List.singleton_append, List.singleton_append]
    exact trimRight_append_cons (h b (by simp)) front tail

theorem trimRight_prefix (s : Text) : trimRight s <+: s := by
  have h := List.reverse_prefix.mpr (List.dropWhile_suffix (l := s.reverse) Byte.isBlank)
  rwa [List.reverse_reverse] at h

/-- Trimming leaves all that stands from one byte that is no blank to another. -/
theorem trim_append_cons {b c : UInt8} (hb : Byte.isBlank b = false) (hc : Byte.isBlank c = false)
    (start middle tail : Text) :
    trim (start ++ b :: (middle ++ c :: tail)) =
      trimLeft start ++ b :: (middle ++ c :: trimRight tail) := by
  rw [trim, trimLeft_append_cons hb, ← List.cons_append, ← List.append_assoc,
    trimRight_append_cons hc, List.append_assoc, List.cons_append]

theorem trim_eq_self {b c : UInt8} (hb : Byte.isBlank b = false) (hc : Byte.isBlank c = false)
    (middle : Text) : trim (b :: (middle ++ [c])) = b :: (middle ++ [c]) :=
  trim_append_cons hb hc [] middle []

theorem mem_of_mem_trimLeft {b : UInt8} {s : Text} (h : b ∈ trimLeft s) : b ∈ s :=
  (List.dropWhile_sublist _).mem h

theorem mem_of_mem_trimRight {b : UInt8} {s : Text} (h : b ∈ trimRight s) : b ∈ s :=
  List.mem_reverse.mp ((List.dropWhile_sublist _).mem (List.mem_reverse.mp h))

/-- What is left of a text starts with no blank. -/
theorem trimLeft_eq_nil_or (s : Text) :
    trimLeft s = [] ∨ ∃ b rest, trimLeft s = b :: rest ∧ Byte.isBlank b = false := by
  cases h : trimLeft s with
  | nil => exact .inl rfl
  | cons b rest =>
    refine .inr ⟨b, rest, rfl, ?_⟩
    have := List.head?_dropWhile_not Byte.isBlank s
    rw [show s.dropWhile Byte.isBlank = b :: rest from h] at this
    simpa using this

/-- A text is what trimming leaves of it, between blanks. -/
theorem exists_trim (s : Text) : ∃ right : Text,
    s = s.takeWhile Byte.isBlank ++ (trim s ++ right) ∧ ∀ b ∈ right, Byte.isBlank b = true := by
  refine ⟨((trimLeft s).reverse.takeWhile Byte.isBlank).reverse, ?_, fun b hb => ?_⟩
  · have hright : trimLeft s =
        trim s ++ ((trimLeft s).reverse.takeWhile Byte.isBlank).reverse := by
      rw [trim, trimRight, ← List.reverse_append, List.takeWhile_append_dropWhile,
        List.reverse_reverse]
    rw [← hright, trimLeft, List.takeWhile_append_dropWhile]
  · exact List.mem_takeWhile_imp (List.mem_reverse.mp hb)

theorem trim_eq_nil_or_cons (s : Text) :
    trim s = [] ∨ ∃ b rest, trim s = b :: rest ∧ Byte.isBlank b = false := by
  rcases trimLeft_eq_nil_or s with h | ⟨b, rest, h, hb⟩
  · left
    rw [trim, h]
    rfl
  · refine .inr ⟨b, trimRight rest, ?_, hb⟩
    rw [trim, h]
    exact trimRight_append_cons hb [] rest

theorem trim_eq_nil_or_concat (s : Text) :
    trim s = [] ∨ ∃ front b, trim s = front ++ [b] ∧ Byte.isBlank b = false := by
  rcases trimLeft_eq_nil_or (trimLeft s).reverse with h | ⟨b, rest, h, hb⟩
  · left
    rw [trim, trimRight, show (trimLeft s).reverse.dropWhile Byte.isBlank = [] from h]
    rfl
  · refine .inr ⟨rest.reverse, b, ?_, hb⟩
    rw [trim, trimRight, show (trimLeft s).reverse.dropWhile Byte.isBlank = b :: rest from h,
      List.reverse_cons]

/-- Trimming leaves what it has once left. -/
theorem trim_append_trim {s : Text} (h : trim s ≠ []) (start tail : Text) :
    trim (start ++ (trim s ++ tail)) = trimLeft start ++ (trim s ++ trimRight tail) := by
  obtain ⟨b, rest, hcons, hb⟩ := (trim_eq_nil_or_cons s).resolve_left h
  obtain ⟨front, c, hconcat, hc⟩ := (trim_eq_nil_or_concat s).resolve_left h
  have hleft : trimLeft (start ++ (trim s ++ tail)) = trimLeft start ++ (trim s ++ tail) := by
    rw [hcons, List.cons_append, trimLeft_append_cons hb]
  rw [trim, hleft, hconcat, List.append_assoc, List.singleton_append, ← List.append_assoc,
    trimRight_append_cons hc]
  simp

theorem trim_isInfix (s : Text) : trim s <:+: s := by
  obtain ⟨right, hs, -⟩ := exists_trim s
  exact ⟨_, right, by rw [List.append_assoc]; exact hs.symm⟩

/-- Blanks at the end do not change what trimming leaves. -/
theorem trim_append_blank {right : Text} (h : ∀ b ∈ right, Byte.isBlank b = true) (s : Text) :
    trim (s ++ right) = trim s := by
  have hnone : right.dropWhile Byte.isBlank = [] := List.dropWhile_eq_nil_iff.mpr h
  have hright (t : Text) : trimRight (t ++ right) = trimRight t := by
    rw [trimRight, List.reverse_append,
      List.dropWhile_append_of_pos fun b hb => h b (List.mem_reverse.mp hb), trimRight]
  rw [trim, trimLeft, List.dropWhile_append, hnone]
  split
  · next hs => rw [trim, trimLeft, List.isEmpty_iff.mp hs]
  · exact hright _

theorem trim_trimRight (s : Text) : trim (trimRight s) = trim s := by
  have hblank : ∀ b ∈ (s.reverse.takeWhile Byte.isBlank).reverse, Byte.isBlank b = true :=
    fun b hb => List.mem_takeWhile_imp (List.mem_reverse.mp hb)
  conv_rhs => rw [← List.reverse_reverse s,
    ← List.takeWhile_append_dropWhile (p := Byte.isBlank) (l := s.reverse), List.reverse_append,
    trim_append_blank hblank]
  rfl

theorem trim_trim (s : Text) : trim (trim s) = trim s := by
  by_cases h : trim s = []
  · rw [h]
    rfl
  · simpa [trimLeft, trimRight] using trim_append_trim h [] []

theorem isBlank_of_trim_eq_nil {s : Text} (h : trim s = []) : ∀ b ∈ s, Byte.isBlank b = true := by
  obtain ⟨right, hs, hright⟩ := exists_trim s
  intro b hb
  rw [hs, h, List.nil_append] at hb
  exact (List.mem_append.mp hb).elim List.mem_takeWhile_imp (hright b)

theorem occursIn_iff (word s : Text) : occursIn word s = true ↔ word <:+: s := by
  induction s with
  | nil => simp [occursIn]
  | cons b s ih =>
    rw [occursIn, Bool.or_eq_true, List.isPrefixOf_iff_prefix, ih, List.infix_cons_iff]

/-! ## Putting together -/

theorem joinWith_concat (sep : Text) {pieces : List Text} (h : pieces ≠ []) (last : Text) :
    joinWith sep (pieces ++ [last]) = joinWith sep pieces ++ sep ++ last := by
  induction pieces with
  | nil => exact absurd rfl h
  | cons piece rest ih =>
    cases rest with
    | nil => rfl
    | cons next rest =>
      have hcons : joinWith sep (piece :: next :: rest ++ [last]) =
          piece ++ sep ++ joinWith sep (next :: rest ++ [last]) := rfl
      rw [hcons, ih (List.cons_ne_nil _ _)]
      simp [joinWith]

theorem mem_joinWith {sep : Text} {b : UInt8} {pieces : List Text} (h : b ∈ joinWith sep pieces) :
    b ∈ sep ∨ ∃ piece ∈ pieces, b ∈ piece := by
  induction pieces with
  | nil => contradiction
  | cons piece rest ih =>
    cases rest with
    | nil => exact Or.inr ⟨piece, List.mem_cons_self, h⟩
    | cons next rest =>
      rw [joinWith, List.mem_append, List.mem_append] at h
      · rcases h with (h | h) | h
        · exact Or.inr ⟨piece, List.mem_cons_self, h⟩
        · exact Or.inl h
        · refine (ih h).imp_right ?_
          rintro ⟨other, hother, hb⟩
          exact ⟨other, List.mem_cons_of_mem _ hother, hb⟩
      · exact List.cons_ne_nil _ _

theorem splitOn_joinWith {sep : UInt8} {pieces : List Text} (hne : pieces ≠ [])
    (h : ∀ piece ∈ pieces, sep ∉ piece) :
    splitOn sep (joinWith [sep] pieces) = pieces := by
  induction pieces with
  | nil => exact absurd rfl hne
  | cons piece rest ih =>
    rw [List.forall_mem_cons] at h
    cases rest with
    | nil => exact splitOn_of_not_mem h.1
    | cons next rest =>
      rw [joinWith, List.append_assoc, List.singleton_append, splitOn_append,
        splitOn_of_not_mem h.1, ih (List.cons_ne_nil _ _) h.2, List.singleton_append]
      exact List.cons_ne_nil _ _

theorem joinWith_splitOn (sep : UInt8) (s : Text) : joinWith [sep] (splitOn sep s) = s := by
  induction s with
  | nil => rfl
  | cons b s ih =>
    rw [splitOn_cons]
    cases hs : splitOn sep s with
    | nil => exact absurd hs (splitOn_ne_nil sep s)
    | cons piece rest =>
      rw [hs] at ih
      rw [consPiece]
      split
      · next hb =>
        rw [joinWith, ih, List.nil_append, beq_iff_eq.mp hb, List.singleton_append]
        exact List.cons_ne_nil _ _
      · rw [← ih]
        cases rest <;> rfl

/-- A text is what is left without the byte at its end, and that byte if it was there. -/
theorem exists_dropLastIf (b : UInt8) (s : Text) :
    s = dropLastIf b s ∨ s = dropLastIf b s ++ [b] := by
  unfold dropLastIf
  split
  · next hlast =>
    obtain ⟨front, rfl⟩ := List.getLast?_eq_some_iff.mp (beq_iff_eq.mp hlast)
    exact .inr (by rw [List.dropLast_concat])
  · exact .inl rfl

theorem dropLastIf_prefix (b : UInt8) (s : Text) : dropLastIf b s <+: s := by
  unfold dropLastIf
  split
  · exact List.dropLast_prefix s
  · exact List.prefix_refl s

/-- A byte that is dropped at the end does not stand there twice. -/
theorem getLast?_dropLastIf_ne {b : UInt8} {s : Text} (h : ¬ [b, b] <:+: s) :
    (dropLastIf b s).getLast? ≠ some b := by
  unfold dropLastIf
  split
  · next hlast =>
    intro hbefore
    obtain ⟨front, rfl⟩ := List.getLast?_eq_some_iff.mp (beq_iff_eq.mp hlast)
    rw [List.dropLast_concat] at hbefore
    obtain ⟨front, rfl⟩ := List.getLast?_eq_some_iff.mp hbefore
    exact h ⟨front, [], by simp⟩
  · next hlast => exact fun heq => hlast (beq_iff_eq.mpr heq)

/-! ## Written numbers -/

theorem length_ofNat_le (n : UInt32) : (ofNat n.toNat).length ≤ 10 := by
  rw [ofNat, List.length_map]
  refine (Nat.length_toDigits_le_iff (by decide) (by decide)).mpr ?_
  exact Nat.lt_trans n.toNat_lt (by decide)

/-- The digits of a number are ASCII digits. -/
theorem toNat_digit {n : Nat} {c : Char} (hc : c ∈ Nat.toDigits 10 n) :
    48 ≤ c.toNat ∧ c.toNat ≤ 57 ∧ c.ascii.toNat = c.toNat := by
  have hdigit := Nat.isDigit_of_mem_toDigits (by decide) (by decide) hc
  simp only [Char.isDigit, Bool.and_eq_true, decide_eq_true_eq, ge_iff_le,
    UInt32.le_iff_toNat_le] at hdigit
  have hhigh : c.toNat ≤ 57 := hdigit.2
  exact ⟨hdigit.1, hhigh, Nat.mod_eq_of_lt (by omega)⟩

theorem isDigit_of_mem_ofNat {n : Nat} {b : UInt8} (h : b ∈ ofNat n) : Byte.isDigit b := by
  obtain ⟨c, hc, rfl⟩ := List.mem_map.mp h
  obtain ⟨hlow, hhigh, hascii⟩ := toNat_digit hc
  simp only [Byte.isDigit, Bool.and_eq_true, decide_eq_true_eq, UInt8.le_iff_toNat_le, hascii]
  exact ⟨hlow, hhigh⟩

/-- A written number can be read back. -/
theorem digitsValue_ofNat (n : Nat) : digitsValue (ofNat n) = n := by
  have hbyte : ∀ c ∈ Nat.toDigits 10 n, (c.ascii - 48).toNat = c.toNat - '0'.toNat := by
    intro c hc
    obtain ⟨hlow, -, hascii⟩ := toNat_digit hc
    rw [UInt8.toNat_sub_of_le _ _ (by rw [UInt8.le_iff_toNat_le, hascii]; exact hlow), hascii]
    rfl
  have hfold : ∀ (cs : List Char) (m : Nat),
      (∀ c ∈ cs, (c.ascii - 48).toNat = c.toNat - '0'.toNat) →
      (cs.map Char.ascii).foldl (fun n b => 10 * n + (b - 48).toNat) m =
        Nat.ofDigitChars 10 cs m := by
    intro cs
    induction cs with
    | nil => exact fun _ _ => Nat.ofDigitChars_nil.symm
    | cons c cs ih =>
      intro m hcs
      rw [List.map_cons, List.foldl_cons, hcs c List.mem_cons_self, Nat.ofDigitChars_cons]
      exact ih _ fun d hd => hcs d (List.mem_cons_of_mem _ hd)
  exact (hfold _ 0 hbyte).trans Nat.ofDigitChars_ten_toDigits

theorem ofNat_inj {n m : Nat} (h : ofNat n = ofNat m) : n = m := by
  rw [← digitsValue_ofNat n, h, digitsValue_ofNat]

end Text

end Triage
