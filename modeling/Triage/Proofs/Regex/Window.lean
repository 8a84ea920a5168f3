import Triage.Proofs.Regex.Acceptance

/-!
Matching in a window of a line.

A window hides what stands after it, and a word edge or a lookahead may decide by the bytes that it
hides. `Regex.reach` bounds how many bytes after an accepted text can decide about it; where that
many stand in the window, the window and the line accept the same (`Accepts.extend`,
`Accepts.of_extend`).
-/

namespace Triage

/-! ## The line behind a window -/

/-- The capture in a window that goes on with `tail`. -/
def Capture.extend (tail : Text) (c : Capture) : Capture := { c with start := c.start ++ tail }

namespace Place

/-- The same place in a window that goes on with `tail`. -/
def extend (tail : Text) (p : Place) : Place :=
  { p with
    ahead := p.ahead ++ tail
    captures := p.captures.map fun c => (c.1, c.2.extend tail) }

/-- No capture is longer than the text it was taken from. -/
def Sound (p : Place) : Prop := ∀ c ∈ p.captures, c.2.size ≤ c.2.start.length

variable {tail : Text} {p : Place}

@[simp] theorem extend_nil (p : Place) : p.extend [] = p := by
  simp [extend, Capture.extend]

@[simp] theorem length_extend (p : Place) :
    (p.extend tail).ahead.length = p.ahead.length + tail.length := List.length_append

theorem extend_advance (b : UInt8) (rest : Text) :
    (p.advance b rest).extend tail = (p.extend tail).advance b (rest ++ tail) := rfl

theorem extend_enter (loop : Nat) : (p.enter loop).extend tail = (p.extend tail).enter loop := rfl

theorem extend_inside (c s s' : Bool) :
    (p.inside ⟨c, s⟩).extend tail = (p.extend tail).inside ⟨c, s'⟩ := rfl

theorem extend_capture (start : Place) (i : Nat) :
    (p.capture start i).extend tail = (p.extend tail).capture (start.extend tail) i := rfl

theorem extend_advanceBy (n : Nat) (hn : n ≤ p.ahead.length) :
    (p.advanceBy n).extend tail = (p.extend tail).advanceBy n := by
  induction n generalizing p with
  | zero => rfl
  | succ n ih =>
    cases ha : p.ahead with
    | nil => simp [ha] at hn
    | cons b rest =>
      have hext : (p.extend tail).ahead = b :: (rest ++ tail) := by simp [extend, ha]
      simp only [advanceBy, ha, hext]
      rw [ih (by simpa [advance, ha] using hn), extend_advance]

theorem length_advanceBy (n : Nat) (p : Place) :
    (p.advanceBy n).ahead.length = p.ahead.length - n := by
  induction n generalizing p with
  | zero => rfl
  | succ n ih =>
    simp only [advanceBy]
    split
    · rename_i h
      simp [h]
    · rename_i b rest h
      rw [ih]
      simp only [advance, h, List.length_cons]
      omega

theorem captures_advanceBy (n : Nat) (p : Place) : (p.advanceBy n).captures = p.captures := by
  induction n generalizing p with
  | zero => rfl
  | succ n ih =>
    simp only [advanceBy]
    split
    · rfl
    · exact ih _

theorem lookup_extend (i : Nat) :
    (p.extend tail).captures.lookup i = (p.captures.lookup i).map (Capture.extend tail) := by
  simp only [extend]
  induction p.captures with
  | nil => rfl
  | cons c rest ih =>
    obtain ⟨j, c⟩ := c
    simp only [List.map_cons, List.lookup_cons, ih]
    split <;> rfl

theorem Sound.lookup (h : p.Sound) {i : Nat} {c : Capture} (hc : p.captures.lookup i = some c) :
    c.size ≤ c.start.length := by
  obtain ⟨before, after, hp, -⟩ := List.lookup_eq_some_iff.mp hc
  exact h (i, c) (by simp [hp])

end Place

theorem Capture.length_of_recurs {c : Capture} {ignoreCase : Bool} {ahead : Text}
    (h : c.recurs ignoreCase ahead) (hc : c.size ≤ c.start.length) : c.size ≤ ahead.length := by
  have hlen : c.text.length = (ahead.take c.size).length := by
    unfold recurs at h
    split at h
    · simpa [Text.toLower] using congrArg List.length (eq_of_beq h)
    · exact congrArg List.length (eq_of_beq h)
  simp only [Capture.text, List.length_take] at hlen
  omega

theorem Capture.recurs_extend {c : Capture} {ignoreCase : Bool} {ahead tail : Text}
    (hc : c.size ≤ c.start.length) (ha : c.size ≤ ahead.length) :
    (c.extend tail).recurs ignoreCase (ahead ++ tail) = c.recurs ignoreCase ahead := by
  have htext : (c.extend tail).text = c.text := List.take_append_of_le_length hc
  have htake : (ahead ++ tail).take (c.extend tail).size = ahead.take c.size :=
    List.take_append_of_le_length ha
  unfold recurs
  rw [htext, htake]

/-! ## How far an expression looks -/

/-- Whether a text starts with a word byte. -/
def startsWord (s : Text) : Bool := s.head?.any ByteClass.word.mem

theorem Place.atWordEdge_extend {tail : Text} {p : Place}
    (h : p.ahead ≠ [] ∨ startsWord tail = false) :
    (p.extend tail).atWordEdge = p.atWordEdge := by
  unfold atWordEdge extend
  cases ha : p.ahead with
  | cons b rest => rfl
  | nil =>
    have htail : startsWord tail = false := h.resolve_left (by simp [ha])
    unfold startsWord at htail
    simp [htail]

namespace Regex

/-- The most bytes that an expression can accept; none if there is no bound. -/
def width : Regex → Option Nat
  | byte _ => some 1
  | seq a b => do return (← a.width) + (← b.width)
  | alt a b => do return max (← a.width) (← b.width)
  | group _ r | opt _ _ r => r.width
  | backref .. | star .. => none
  | empty | lineStart | lineEnd | wordEdge _ | look .. => some 0

/-- The fewest bytes that an expression can accept. -/
def least : Regex → Nat
  | byte _ => 1
  | seq a b => a.least + b.least
  | alt a b => min a.least b.least
  | group _ r => r.least
  | backref .. | opt .. | star .. | empty | lineStart | lineEnd | wordEdge _ | look .. => 0

/-- How many of the bytes after an accepted text can decide whether it is accepted, if a window
ends among them and the line goes on behind it, with a word byte if `word`; none if there is no
bound. -/
def reach (word : Bool) : Regex → Option Nat
  | wordEdge _ => some (if word then 1 else 0)
  | seq a b => do return max ((← a.reach word) - b.least) (← b.reach word)
  | alt a b => do return max (← a.reach word) (← b.reach word)
  | group _ r | opt _ _ r | star _ _ r => r.reach word
  | look _ r => do return (← r.width) + (← r.reach word)
  | empty | byte _ | lineStart | lineEnd | backref .. => some 0

variable {c : Bool} {tail : Text}

section Inversion

variable {word : Bool} {a b r : Regex} {n : Nat}

theorem width_seq (h : (seq a b).width = some n) :
    ∃ na nb, a.width = some na ∧ b.width = some nb ∧ n = na + nb := by
  simp only [width, bind, pure, Option.bind_eq_some_iff, Option.some.injEq] at h
  obtain ⟨na, ha, nb, hb, rfl⟩ := h
  exact ⟨na, nb, ha, hb, rfl⟩

theorem width_alt (h : (alt a b).width = some n) :
    ∃ na nb, a.width = some na ∧ b.width = some nb ∧ n = max na nb := by
  simp only [width, bind, pure, Option.bind_eq_some_iff, Option.some.injEq] at h
  obtain ⟨na, ha, nb, hb, rfl⟩ := h
  exact ⟨na, nb, ha, hb, rfl⟩

theorem reach_seq (h : (seq a b).reach word = some n) :
    ∃ na nb, a.reach word = some na ∧ b.reach word = some nb ∧ n = max (na - b.least) nb := by
  simp only [reach, bind, pure, Option.bind_eq_some_iff, Option.some.injEq] at h
  obtain ⟨na, ha, nb, hb, rfl⟩ := h
  exact ⟨na, nb, ha, hb, rfl⟩

theorem reach_alt (h : (alt a b).reach word = some n) :
    ∃ na nb, a.reach word = some na ∧ b.reach word = some nb ∧ n = max na nb := by
  simp only [reach, bind, pure, Option.bind_eq_some_iff, Option.some.injEq] at h
  obtain ⟨na, ha, nb, hb, rfl⟩ := h
  exact ⟨na, nb, ha, hb, rfl⟩

theorem reach_look {negated : Bool} (h : (look negated r).reach word = some n) :
    ∃ w m, r.width = some w ∧ r.reach word = some m ∧ n = w + m := by
  simp only [reach, bind, pure, Option.bind_eq_some_iff, Option.some.injEq] at h
  obtain ⟨w, hw, m, hm, rfl⟩ := h
  exact ⟨w, m, hw, hm, rfl⟩

end Inversion

theorem least_le_width {r : Regex} {w : Nat} (h : r.width = some w) : r.least ≤ w := by
  induction r generalizing w with
  | seq a b iha ihb =>
    obtain ⟨wa, wb, hwa, hwb, rfl⟩ := width_seq h
    exact Nat.add_le_add (iha hwa) (ihb hwb)
  | alt a b iha ihb =>
    obtain ⟨wa, wb, hwa, hwb, rfl⟩ := width_alt h
    calc min a.least b.least
        ≤ a.least := Nat.min_le_left _ _
      _ ≤ wa := iha hwa
      _ ≤ max wa wb := Nat.le_max_left _ _
  | group i r ih => exact ih h
  | byte => exact Nat.le_of_eq (by simpa [width, least] using h)
  | _ => exact Nat.zero_le _

theorem Accepts.least_le {v : View} {r : Regex} {p q : Place} (h : Accepts v r p q) :
    q.ahead.length + r.least ≤ p.ahead.length := by
  induction h with
  | byte ha => simp [Place.advance, least, ha]
  | seq _ _ iha ihb =>
    simp only [least]
    omega
  | altLeft _ ih | altRight _ ih =>
    simp only [least]
    omega
  | group _ ih => exact ih
  | empty | lineStart | lineEnd | wordEdge | optSkip | starLeave | look | lookNot =>
    exact Nat.le_refl _
  | backref hd hrec => exact (Accepts.backref (v := v) hd hrec).later.length_le
  | optOnce _ _ ih => exact Nat.le_trans (Nat.le_add_right _ _) ih
  | starAgain _ _ _ ih ihs =>
    exact Nat.le_trans ihs (Nat.le_trans (Nat.le_add_right _ _) ih)

/-- Without lookahead, no more than the next byte decides. -/
theorem reach_of_looksAhead {word : Bool} {r : Regex} (h : r.looksAhead = false) :
    ∃ n ≤ 1, r.reach word = some n := by
  induction r with
  | empty | byte | lineStart | lineEnd | backref => exact ⟨0, Nat.zero_le 1, rfl⟩
  | wordEdge => exact ⟨_, by split <;> omega, rfl⟩
  | seq a b iha ihb =>
    simp only [looksAhead, Bool.or_eq_false_iff] at h
    obtain ⟨na, hna, ha⟩ := iha h.1
    obtain ⟨nb, hnb, hb⟩ := ihb h.2
    exact ⟨max (na - b.least) nb, by omega, by simp [reach, ha, hb]⟩
  | alt a b iha ihb =>
    simp only [looksAhead, Bool.or_eq_false_iff] at h
    obtain ⟨na, hna, ha⟩ := iha h.1
    obtain ⟨nb, hnb, hb⟩ := ihb h.2
    exact ⟨max na nb, by omega, by simp [reach, ha, hb]⟩
  | group _ r ih | opt _ _ r ih | star _ _ r ih => exact ih h
  | look => contradiction

theorem reach_le (word : Bool) {r : Regex} {n : Nat} (h : r.reach true = some n) :
    ∃ m ≤ n, r.reach word = some m := by
  induction r generalizing n with
  | empty | byte | lineStart | lineEnd | backref => exact ⟨0, Nat.zero_le n, rfl⟩
  | wordEdge =>
    obtain rfl : 1 = n := by simpa [reach] using h
    exact ⟨_, by split <;> omega, rfl⟩
  | seq a b iha ihb =>
    obtain ⟨na, nb, ha, hb, rfl⟩ := reach_seq h
    obtain ⟨ma, hma, ha'⟩ := iha ha
    obtain ⟨mb, hmb, hb'⟩ := ihb hb
    exact ⟨max (ma - b.least) mb, by omega, by simp [reach, ha', hb']⟩
  | alt a b iha ihb =>
    obtain ⟨na, nb, ha, hb, rfl⟩ := reach_alt h
    obtain ⟨ma, hma, ha'⟩ := iha ha
    obtain ⟨mb, hmb, hb'⟩ := ihb hb
    exact ⟨max ma mb, by omega, by simp [reach, ha', hb']⟩
  | group _ r ih | opt _ _ r ih | star _ _ r ih => exact ih h
  | look negated r ih =>
    obtain ⟨w, nr, hw, hr, rfl⟩ := reach_look h
    obtain ⟨m, hm, hr'⟩ := ih hr
    exact ⟨w + m, by omega, by simp [reach, hw, hr']⟩

/-- Accepting keeps captures within the text. -/
theorem Accepts.sound {v : View} {r : Regex} {p q : Place} (h : Accepts v r p q) :
    p.Sound → q.Sound := by
  induction h with
  | empty | lineStart | lineEnd | wordEdge | optSkip | starLeave | lookNot => exact id
  | byte => exact id
  | seq _ _ iha ihb => exact fun hp => ihb (iha hp)
  | altLeft _ ih | altRight _ ih => exact ih
  | @group i r p q h ih =>
    intro hp d hd
    rcases List.mem_cons.mp hd with rfl | hd
    · have := h.accepted_add_length
      simp only
      omega
    · exact ih hp d hd
  | @backref i ignoreCase p d hd hrec =>
    intro hp
    exact fun e he => hp e (Place.captures_advanceBy _ p ▸ he)
  | optOnce _ _ ih => exact ih
  | starAgain _ _ _ ih ihs => exact fun hp => ihs (ih hp)
  | look _ _ ih => exact ih

/-- Whether a place of the window is a word edge of the line is seen in the window, if the byte
that may decide it stands there. -/
theorem atWordEdge_extend {negated : Bool} {n : Nat}
    (hn : (wordEdge negated).reach (startsWord tail) = some n) {p : Place}
    (hlen : n ≤ p.ahead.length) : (p.extend tail).atWordEdge = p.atWordEdge := by
  refine Place.atWordEdge_extend ?_
  cases hs : startsWord tail with
  | false => exact Or.inr rfl
  | true =>
    obtain rfl : 1 = n := by simpa [reach, hs] using hn
    exact Or.inl (List.ne_nil_of_length_pos (by omega))

/-- Where neither what is accepted nor what decides about it reaches the end of the window, the
window and the line give one answer. -/
theorem run_extend (htail : tail ≠ []) {r : Regex} : ∀ {w n : Nat}, r.width = some w →
    r.reach (startsWord tail) = some n → ∀ {p : Place} {next next' : Place → Option Place},
      w + n ≤ p.ahead.length →
      (∀ q, p.ahead.length ≤ q.ahead.length + w →
        (next q).map (Place.extend tail) = next' (q.extend tail)) →
      (r.run ⟨c, true⟩ p next).map (Place.extend tail) =
        r.run ⟨c, false⟩ (p.extend tail) next' := by
  induction r with
  | empty =>
    intro w n hw hn p next next' hlen hnext
    exact hnext p (by omega)
  | byte set =>
    intro w n hw hn p next next' hlen hnext
    obtain rfl : 1 = w := by simpa [width] using hw
    cases ha : p.ahead with
    | nil => simp [ha] at hlen
    | cons b rest =>
      have hext : (p.extend tail).ahead = b :: (rest ++ tail) := by simp [Place.extend, ha]
      simp only [run, ha, hext]
      split
      · exact hnext _ (by simp [Place.advance, ha])
      · rfl
  | lineStart =>
    intro w n hw hn p next next' hlen hnext
    have hprevious : (p.extend tail).previous = p.previous := rfl
    simp only [run, hprevious]
    split
    · exact hnext p (by omega)
    · rfl
  | lineEnd =>
    intro w n hw hn p next next' hlen hnext
    simp [run, Place.extend, htail]
  | wordEdge negated =>
    intro w n hw hn p next next' hlen hnext
    simp only [run, atWordEdge_extend hn (by omega : n ≤ p.ahead.length)]
    split
    · exact hnext p (by omega)
    · rfl
  | seq a b iha ihb =>
    intro w n hw hn p next next' hlen hnext
    obtain ⟨wa, wb, hwa, hwb, rfl⟩ := width_seq hw
    obtain ⟨na, nb, hna, hnb, rfl⟩ := reach_seq hn
    -- Of the bytes that decide about `a`, the first `b.least` are accepted by `b`.
    have hleast := least_le_width hwb
    exact iha hwa hna (by omega) fun m hm => ihb hwb hnb (by omega) fun q hq => hnext q (by omega)
  | alt a b iha ihb =>
    intro w n hw hn p next next' hlen hnext
    obtain ⟨wa, wb, hwa, hwb, rfl⟩ := width_alt hw
    obtain ⟨na, nb, hna, hnb, rfl⟩ := reach_alt hn
    have hleft := iha hwa hna (p := p) (by omega) fun q hq => hnext q (by omega)
    have hright := ihb hwb hnb (p := p) (by omega) fun q hq => hnext q (by omega)
    simp only [run, map_either, hleft, hright]
  | group i r ih =>
    intro w n hw hn p next next' hlen hnext
    refine ih hw hn hlen fun q hq => ?_
    rw [← Place.extend_capture]
    exact hnext _ hq
  | backref i ignoreCase =>
    intro w n hw
    contradiction
  | opt loop greedy r ih =>
    intro w n hw hn p next next' hlen hnext
    have honce := ih hw hn (p := p.enter loop) hlen hnext
    rw [run_opt, run_opt, map_oneRound, honce, hnext p (by omega)]
    rfl
  | star loop greedy r =>
    intro w n hw
    contradiction
  | look negated r ih =>
    intro w n hw hn p next next' hlen hnext
    obtain ⟨wr, nr, hwr, hnr, rfl⟩ := reach_look hn
    have hin : (r.run ⟨c, true⟩ (p.inside ⟨c, true⟩) some).map (Place.extend tail) =
        r.run ⟨c, false⟩ ((p.extend tail).inside ⟨c, false⟩) some := by
      rw [← Place.extend_inside]
      have hlen' : wr + nr ≤ (p.inside ⟨c, true⟩).ahead.length := by
        show wr + nr ≤ p.ahead.length
        omega
      exact ih hwr hnr hlen' fun _ _ => rfl
    simp only [run]
    rw [← hin]
    cases r.run ⟨c, true⟩ (p.inside ⟨c, true⟩) some with
    | none =>
      cases negated with
      | false => rfl
      | true => exact hnext p (by omega)
    | some q =>
      cases negated with
      | false => exact hnext { p with captures := q.captures } (by simp)
      | true => rfl

/-- A lookahead finds the same in the window and in the line. -/
theorem run_inside_extend (htail : tail ≠ []) {r : Regex} {w n : Nat} (hw : r.width = some w)
    (hn : r.reach (startsWord tail) = some n) {p : Place} (hlen : w + n ≤ p.ahead.length) :
    (r.run ⟨c, true⟩ (p.inside ⟨c, true⟩) some).map (Place.extend tail) =
      r.run ⟨c, false⟩ ((p.extend tail).inside ⟨c, false⟩) some := by
  rw [← Place.extend_inside]
  exact run_extend htail hw hn (by exact hlen) fun _ _ => rfl

/-! ## From the window to the line -/

/-- What is accepted in a window is accepted in the line, if what decides about it is no more than
the window shows after it. -/
theorem Accepts.extend (htail : tail ≠ []) {r : Regex} {p q : Place}
    (h : Accepts ⟨c, true⟩ r p q) : ∀ {n : Nat}, r.reach (startsWord tail) = some n →
      n ≤ q.ahead.length → p.Sound →
        Accepts ⟨c, false⟩ r (p.extend tail) (q.extend tail) := by
  induction h with
  | empty => intro n hn hlen hp; exact .empty
  | @byte set p b rest ha hb =>
    intro n hn hlen hp
    rw [Place.extend_advance]
    exact .byte (by simp [Place.extend, ha]) hb
  | lineStart h => intro n hn hlen hp; exact .lineStart h
  -- The end of this window is no line end.
  | lineEnd ha hv => contradiction
  | @wordEdge negated p h =>
    intro n hn hlen hp
    exact .wordEdge (by rw [atWordEdge_extend hn hlen, h])
  | seq ha hb iha ihb =>
    intro n hn hlen hp
    obtain ⟨na, nb, hna, hnb, rfl⟩ := reach_seq hn
    -- `b` accepts some of the bytes that decide about `a`.
    have hleast := hb.least_le
    exact .seq (iha hna (by omega) hp) (ihb hnb (by omega) (ha.sound hp))
  | altLeft ha ih =>
    intro n hn hlen hp
    obtain ⟨na, nb, hna, hnb, rfl⟩ := reach_alt hn
    exact .altLeft (ih hna (by omega) hp)
  | altRight hb ih =>
    intro n hn hlen hp
    obtain ⟨na, nb, hna, hnb, rfl⟩ := reach_alt hn
    exact .altRight (ih hnb (by omega) hp)
  | group h ih =>
    intro n hn hlen hp
    rw [Place.extend_capture]
    exact .group (ih hn hlen hp)
  | @backref i ignoreCase p d hd hrec =>
    intro n hn hlen hp
    have hsize := hp.lookup hd
    have hahead := Capture.length_of_recurs hrec hsize
    rw [Place.extend_advanceBy _ hahead]
    refine .backref (c := d.extend tail) (by rw [Place.lookup_extend, hd]; rfl) ?_
    rw [← hrec]
    exact Capture.recurs_extend hsize hahead
  | optOnce he h ih => intro n hn hlen hp; exact .optOnce he (ih hn hlen hp)
  | optSkip => intro n hn hlen hp; exact .optSkip
  | starLeave => intro n hn hlen hp; exact .starLeave
  | starAgain he h hs ih ihs =>
    intro n hn hlen hp
    have := hs.later.length_le
    exact .starAgain he (ih hn (by omega) hp) (ihs hn hlen (h.sound hp))
  | @look r p q ha h =>
    intro n hn hlen hp
    obtain ⟨w, m, hw, hm, rfl⟩ := reach_look hn
    -- What a lookahead remembers is what backtracking finds, so the runs are compared.
    have hrun := run_inside_extend (c := c) (p := p) htail hw hm hlen
    rw [h] at hrun
    obtain ⟨q', hq', he⟩ := run_sound hrun.symm
    cases he
    exact .look hq' hrun.symm
  | @lookNot r p h =>
    intro n hn hlen hp
    obtain ⟨w, m, hw, hm, rfl⟩ := reach_look hn
    have hrun := run_inside_extend (c := c) (p := p) htail hw hm hlen
    rw [h] at hrun
    exact .lookNot hrun.symm

/-! ## From the line to the window -/

/-- What is accepted in the line is accepted in the window, if what decides about it is no more than
the window shows after it. -/
theorem Accepts.of_extend (htail : tail ≠ []) {r : Regex} {P Q : Place}
    (h : Accepts ⟨c, false⟩ r P Q) : ∀ {n : Nat}, r.reach (startsWord tail) = some n →
      tail.length + n ≤ Q.ahead.length → ∀ {p : Place}, P = p.extend tail → p.Sound →
        ∃ q, Q = q.extend tail ∧ Accepts ⟨c, true⟩ r p q := by
  have hpos : 0 < tail.length := List.length_pos_iff.mpr htail
  induction h with
  | empty => intro n hn hlen p hP hp; exact ⟨p, hP, .empty⟩
  | @byte set P b rest ha hb =>
    rintro n hn hlen p rfl hp
    cases hahead : p.ahead with
    | nil =>
      -- The byte would be the first behind the window, and accepted all the same.
      have htext : tail = b :: rest := by simpa [Place.extend, hahead] using ha
      simp only [Place.advance, htext, List.length_cons] at hlen
      omega
    | cons b' rest' =>
      have htext : b' :: (rest' ++ tail) = b :: rest := by simpa [Place.extend, hahead] using ha
      obtain ⟨rfl, rfl⟩ := List.cons.inj htext
      exact ⟨p.advance b' rest', (Place.extend_advance b' rest').symm, .byte hahead hb⟩
  | lineStart h =>
    rintro n hn hlen p rfl hp
    exact ⟨p, rfl, .lineStart h⟩
  | lineEnd ha =>
    intro n hn hlen
    -- At the end of the line nothing is left, not even what lies behind the window.
    simp only [ha, List.length_nil] at hlen
    omega
  | @wordEdge negated P h =>
    rintro n hn hlen p rfl hp
    rw [Place.length_extend] at hlen
    exact ⟨p, rfl, .wordEdge (by rw [← h, atWordEdge_extend hn (by omega)])⟩
  | seq ha hb iha ihb =>
    intro n hn hlen p hP hp
    obtain ⟨na, nb, hna, hnb, rfl⟩ := reach_seq hn
    have hleast := hb.least_le
    obtain ⟨m, rfl, hm⟩ := iha hna (by omega) hP hp
    obtain ⟨q, rfl, hq⟩ := ihb hnb (by omega) rfl (hm.sound hp)
    exact ⟨q, rfl, .seq hm hq⟩
  | altLeft _ ih =>
    intro n hn hlen p hP hp
    obtain ⟨na, nb, hna, hnb, rfl⟩ := reach_alt hn
    obtain ⟨q, rfl, hq⟩ := ih hna (by omega) hP hp
    exact ⟨q, rfl, .altLeft hq⟩
  | altRight _ ih =>
    intro n hn hlen p hP hp
    obtain ⟨na, nb, hna, hnb, rfl⟩ := reach_alt hn
    obtain ⟨q, rfl, hq⟩ := ih hnb (by omega) hP hp
    exact ⟨q, rfl, .altRight hq⟩
  | group _ ih =>
    rintro n hn hlen p rfl hp
    obtain ⟨q, rfl, hq⟩ := ih hn hlen rfl hp
    exact ⟨_, (Place.extend_capture p _).symm, .group hq⟩
  | @backref i ignoreCase P d hd hrec =>
    rintro n hn hlen p rfl hp
    rw [Place.lookup_extend] at hd
    obtain ⟨d', hd', rfl⟩ := Option.map_eq_some_iff.mp hd
    have hsize := hp.lookup hd'
    have hahead : d'.size ≤ p.ahead.length := by
      have hlater := Place.length_advanceBy d'.size (p.extend tail)
      rw [show (d'.extend tail).size = d'.size from rfl, hlater] at hlen
      simp only [Place.extend, List.length_append] at hlen
      omega
    refine ⟨p.advanceBy d'.size, (Place.extend_advanceBy _ hahead).symm, .backref hd' ?_⟩
    rw [← hrec]
    exact (Capture.recurs_extend hsize hahead).symm
  | optOnce he _ ih =>
    rintro n hn hlen p rfl hp
    obtain ⟨q, rfl, hq⟩ := ih hn hlen (Place.extend_enter _).symm hp
    exact ⟨q, rfl, .optOnce he hq⟩
  | optSkip => intro n hn hlen p hP hp; exact ⟨p, hP, .optSkip⟩
  | starLeave => intro n hn hlen p hP hp; exact ⟨p, hP, .starLeave⟩
  | starAgain he h hs ih ihs =>
    rintro n hn hlen p rfl hp
    have := hs.later.length_le
    obtain ⟨m, rfl, hm⟩ := ih hn (by omega) (Place.extend_enter _).symm hp
    obtain ⟨q, rfl, hq⟩ := ihs hn hlen rfl (hm.sound hp)
    exact ⟨q, rfl, .starAgain he hm hq⟩
  | look ha h =>
    rintro n hn hlen p rfl hp
    obtain ⟨w, m, hw, hm, rfl⟩ := reach_look hn
    have hrun := run_inside_extend (c := c) (p := p) htail hw hm (by
      simp only [Place.extend, List.length_append] at hlen
      omega)
    rw [h] at hrun
    obtain ⟨q, hq, rfl⟩ := Option.map_eq_some_iff.mp hrun
    obtain ⟨_, ha', he⟩ := run_sound hq
    cases he
    exact ⟨{ p with captures := q.captures }, rfl, .look ha' hq⟩
  | lookNot h =>
    rintro n hn hlen p rfl hp
    obtain ⟨w, m, hw, hm, rfl⟩ := reach_look hn
    have hrun := run_inside_extend (c := c) (p := p) htail hw hm (by
      simp only [Place.extend, List.length_append] at hlen
      omega)
    rw [h] at hrun
    exact ⟨p, rfl, .lookNot (Option.map_eq_none_iff.mp hrun)⟩

end Regex

end Triage
