import Triage.Proofs.Text

/-!
Texts in UTF-8.

A text is well formed if it is the encoding of some characters (`IsUtf8`). Of the encoding only two
things matter: where a character starts (`IsSequence`), and that an ASCII byte is a character of its
own. So a text can be cut before any byte that starts a character (`IsUtf8.of_append`), blanks can
be trimmed, and `charFloor` finds such a byte by going back three bytes at most
(`IsUtf8.charFloor`).
-/

namespace Triage

namespace Byte

theorem isContinuation_of_lt {b : UInt8} (h : b < 128) : isContinuation b = false := by
  have hall : ∀ n < 128, isContinuation (UInt8.ofNat n) = false := by decide
  have hlt : b.toNat < 128 := by simpa [UInt8.lt_iff_toNat_lt] using h
  simpa using hall b.toNat hlt

theorem lt_of_isBlank {b : UInt8} (h : isBlank b) : b < 128 := by
  simp only [isBlank, Bool.or_eq_true, beq_iff_eq] at h
  obtain ((rfl | rfl) | rfl) | rfl := h <;> decide

end Byte

namespace Text

/-! ## Characters -/

/-- The bytes of one character: its first byte, and those that continue it. -/
structure IsSequence (first : UInt8) (rest : Text) : Prop where
  starts : Byte.isContinuation first = false
  continues : ∀ b ∈ rest, Byte.isContinuation b = true
  length_le : rest.length ≤ 3
  ascii : first < 128 → rest = []

theorem isContinuation_ofNat (v : Nat) :
    Byte.isContinuation (UInt8.ofNat (v % 0x40 + 0x80)) = true := by
  have hall : ∀ n < 0x40, Byte.isContinuation (UInt8.ofNat (n + 0x80)) = true := by decide
  exact hall _ (Nat.mod_lt _ (by decide))

theorem not_isContinuation_ofNat {v : Nat} (hlow : 0xc0 ≤ v) (hhigh : v < 0x100) :
    Byte.isContinuation (UInt8.ofNat v) = false ∧ ¬ UInt8.ofNat v < 128 := by
  have hall : ∀ n < 0x40, Byte.isContinuation (UInt8.ofNat (n + 0xc0)) = false ∧
      ¬ UInt8.ofNat (n + 0xc0) < 128 := by
    decide
  rw [← Nat.sub_add_cancel hlow]
  exact hall _ (by omega)

theorem IsSequence.ofNat {v : Nat} {rest : Text} (hlow : 0xc0 ≤ v) (hhigh : v < 0x100)
    (hrest : ∀ b ∈ rest, Byte.isContinuation b = true) (hlength : rest.length ≤ 3) :
    IsSequence (UInt8.ofNat v) rest where
  starts := (not_isContinuation_ofNat hlow hhigh).1
  continues := hrest
  length_le := hlength
  ascii h := absurd h (not_isContinuation_ofNat hlow hhigh).2

/-- The encoding of a character is one sequence. -/
theorem exists_isSequence (c : Char) :
    ∃ first rest, String.utf8EncodeChar c = first :: rest ∧ IsSequence first rest := by
  have hnil : ∀ b ∈ ([] : Text), Byte.isContinuation b = true := by simp
  have hcons {v : Nat} {rest : Text} (h : ∀ b ∈ rest, Byte.isContinuation b = true) :
      ∀ b ∈ UInt8.ofNat (v % 0x40 + 0x80) :: rest, Byte.isContinuation b = true :=
    List.forall_mem_cons.mpr ⟨isContinuation_ofNat v, h⟩
  unfold String.utf8EncodeChar
  dsimp only
  split
  · next hascii =>
    have hlt : UInt8.ofNat c.val.toNat < 128 := by
      rw [UInt8.lt_iff_toNat_lt, UInt8.toNat_ofNat']
      exact Nat.lt_of_le_of_lt (Nat.mod_le _ _) (Nat.lt_succ_of_le hascii)
    exact ⟨_, _, rfl, Byte.isContinuation_of_lt hlt, hnil, Nat.zero_le _, fun _ => rfl⟩
  · split
    · exact ⟨_, _, rfl, .ofNat (by omega) (by omega) (hcons hnil) (by simp)⟩
    · split
      · exact ⟨_, _, rfl, .ofNat (by omega) (by omega) (hcons (hcons hnil)) (by simp)⟩
      · exact ⟨_, _, rfl, .ofNat (by omega) (by omega) (hcons (hcons (hcons hnil))) (by simp)⟩

/-! ## Well-formed texts -/

/-- The text is the encoding of some characters. -/
def IsUtf8 (s : Text) : Prop := ∃ chars : List Char, s = chars.flatMap String.utf8EncodeChar

variable {s t : Text}

theorem IsUtf8.nil : IsUtf8 [] := ⟨[], rfl⟩

theorem IsUtf8.append (hs : IsUtf8 s) (ht : IsUtf8 t) : IsUtf8 (s ++ t) := by
  obtain ⟨chars, rfl⟩ := hs
  obtain ⟨chars', rfl⟩ := ht
  exact ⟨chars ++ chars', List.flatMap_append.symm⟩

theorem IsUtf8.utf8EncodeChar_append (c : Char) (h : IsUtf8 s) :
    IsUtf8 (String.utf8EncodeChar c ++ s) :=
  .append ⟨[c], (List.flatMap_singleton _ _).symm⟩ h

theorem isUtf8_of_ascii (h : s.all fun b => b < 128) : IsUtf8 s := by
  have hone : ∀ n < 128, String.utf8EncodeChar (Char.ofNat n) = [UInt8.ofNat n] := by decide
  induction s with
  | nil => exact .nil
  | cons b s ih =>
    rw [List.all_cons, Bool.and_eq_true, decide_eq_true_eq] at h
    have hb : IsUtf8 [b] := by
      have hlt : b.toNat < 128 := by simpa [UInt8.lt_iff_toNat_lt] using h.1
      exact ⟨[Char.ofNat b.toNat], by simp [hone _ hlt]⟩
    exact hb.append (ih h.2)

/-! ## Cutting -/

/-- A text can be cut before any byte that starts a character. -/
theorem IsUtf8.of_append (h : IsUtf8 (s ++ t))
    (hcut : ∀ b, t.head? = some b → Byte.isContinuation b = false) : IsUtf8 s ∧ IsUtf8 t := by
  obtain ⟨chars, hchars⟩ := h
  induction chars generalizing s with
  | nil =>
    obtain ⟨rfl, rfl⟩ := List.append_eq_nil_iff.mp hchars
    exact ⟨.nil, .nil⟩
  | cons c chars ih =>
    obtain ⟨first, rest, hc, hsequence⟩ := exists_isSequence c
    rw [List.flatMap_cons] at hchars
    obtain ⟨middle, hfirst, ht⟩ | ⟨middle, rfl, hrest⟩ := List.append_eq_append_iff.mp hchars
    · -- The cut is in the first character, so before it or behind it.
      rw [hc] at hfirst
      cases s with
      | nil => exact ⟨.nil, c :: chars, by simpa using hchars⟩
      | cons b s =>
        obtain ⟨rfl, rfl⟩ := List.cons_eq_cons.mp hfirst
        cases middle with
        | nil => exact ⟨⟨[c], by simpa using hc.symm⟩, chars, ht⟩
        | cons b' middle =>
          have hin := hsequence.continues b' (by simp)
          rw [hcut b' (by rw [ht]; rfl)] at hin
          cases hin
    · obtain ⟨hs, ht⟩ := ih hrest.symm
      exact ⟨hs.utf8EncodeChar_append c, ht⟩

/-- ASCII bytes at the start are characters of their own. -/
theorem IsUtf8.of_ascii_append (hs : ∀ b ∈ s, b < 128) (h : IsUtf8 (s ++ t)) : IsUtf8 t := by
  induction s with
  | nil => exact h
  | cons b s ih =>
    refine ih (fun b' hb' => hs b' (List.mem_cons_of_mem _ hb')) ?_
    obtain ⟨chars, hchars⟩ := h
    cases chars with
    | nil => cases hchars
    | cons c chars =>
      obtain ⟨first, rest, hc, hsequence⟩ := exists_isSequence c
      rw [List.flatMap_cons, hc] at hchars
      obtain ⟨rfl, hrest⟩ := List.cons_eq_cons.mp hchars
      rw [hsequence.ascii (hs b List.mem_cons_self)] at hrest
      exact ⟨chars, hrest⟩

theorem IsUtf8.of_append_ascii (ht : ∀ b ∈ t, b < 128) (h : IsUtf8 (s ++ t)) : IsUtf8 s :=
  (h.of_append fun b hb => Byte.isContinuation_of_lt (ht b (List.mem_of_head? hb))).1

theorem IsUtf8.trim (h : IsUtf8 s) : IsUtf8 (trim s) := by
  obtain ⟨right, hs, hright⟩ := exists_trim s
  rw [hs] at h
  have hleft := h.of_ascii_append fun b hb => Byte.lt_of_isBlank (List.mem_takeWhile_imp hb)
  exact hleft.of_append_ascii fun b hb => Byte.lt_of_isBlank (hright b hb)

/-! ## Going back to where a character starts -/

/-- Before an offset within a well-formed text a character starts, at most three bytes back. -/
theorem IsUtf8.exists_start (h : IsUtf8 s) {n : Nat} (hn : n < s.length) :
    ∃ start first continued tail, s = start ++ first :: (continued ++ tail) ∧
      start.length + continued.length = n ∧ continued.length ≤ 3 ∧
      Byte.isContinuation first = false ∧ ∀ b ∈ continued, Byte.isContinuation b = true := by
  obtain ⟨chars, rfl⟩ := h
  -- character by character, up to the one that has the byte
  induction chars generalizing n with
  | nil => cases hn
  | cons c chars ih =>
    obtain ⟨first, rest, hc, hsequence⟩ := exists_isSequence c
    rw [List.flatMap_cons, hc] at hn ⊢
    obtain hin | hbehind := Nat.lt_or_ge n (first :: rest).length
    · have hle : n ≤ rest.length := Nat.le_of_lt_succ hin
      refine ⟨[], first, rest.take n, rest.drop n ++ chars.flatMap String.utf8EncodeChar, ?_, ?_,
        ?_, hsequence.starts, fun b hb => hsequence.continues b (List.mem_of_mem_take hb)⟩
      · rw [List.nil_append, ← List.append_assoc, List.take_append_drop, List.cons_append]
      · rw [List.length_take, List.length_nil]
        omega
      · rw [List.length_take]
        have := hsequence.length_le
        omega
    · rw [List.length_append] at hn
      obtain ⟨start, first', continued, tail, hs, hlength, hrest⟩ :=
        ih (n := n - (first :: rest).length) (by omega)
      refine ⟨first :: rest ++ start, first', continued, tail, ?_, ?_, hrest⟩
      · rw [hs, List.append_assoc]
      · rw [List.length_append]
        omega

theorem charFloor_append {start continued : Text} {first : UInt8} (tail : Text)
    (hfirst : Byte.isContinuation first = false)
    (hcontinued : ∀ b ∈ continued, Byte.isContinuation b = true) :
    charFloor (start ++ first :: (continued ++ tail)) (start.length + continued.length) =
      start.length := by
  have htake : (start ++ first :: (continued ++ tail)).take (start.length + continued.length + 1) =
      start ++ first :: continued := by
    rw [Nat.add_assoc, List.take_length_add_append, List.take_succ_cons, List.take_left]
  have hdrop : (start ++ first :: continued).reverse.dropWhile Byte.isContinuation =
      first :: start.reverse := by
    rw [List.reverse_append, List.reverse_cons, List.append_assoc,
      List.dropWhile_append_of_pos fun b hb => hcontinued b (List.mem_reverse.mp hb)]
    simp [hfirst]
  rw [charFloor, if_neg (by simp only [List.length_append, List.length_cons]; omega), htake, hdrop]
  simp

/-- A text is cut between two characters, at most three bytes before the offset. -/
theorem IsUtf8.charFloor (h : IsUtf8 s) (n : Nat) :
    charFloor s n ≤ n ∧ (n < s.length → n ≤ charFloor s n + 3) ∧
      IsUtf8 (s.take (charFloor s n)) ∧ IsUtf8 (s.drop (charFloor s n)) := by
  obtain hn | hn := Nat.lt_or_ge n s.length
  · obtain ⟨start, first, continued, tail, rfl, rfl, hle, hfirst, hcontinued⟩ := h.exists_start hn
    rw [charFloor_append tail hfirst hcontinued, List.take_left, List.drop_left]
    obtain ⟨hstart, htail⟩ := h.of_append (t := first :: (continued ++ tail)) fun b hb => by
      rw [← Option.some_inj.mp hb]
      exact hfirst
    exact ⟨by omega, fun _ => by omega, hstart, htail⟩
  · rw [Text.charFloor, if_pos hn, List.take_length, List.drop_length]
    exact ⟨hn, fun hlt => absurd hlt (Nat.not_lt_of_le hn), h, .nil⟩

end Text

end Triage
