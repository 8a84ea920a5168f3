import Mathlib.Data.Nat.Find
import Triage.Proofs.Regex.Window

/-!
Matches of a line, and the search for the first one.

`Regex.MatchesPiece r line i n` says that `r` matches the `n` bytes from offset `i` on in the whole
line: `^` holds at its start only, `$` at its end only, and word edges are those of the line. The
search of a window is the search for the first offset at which the window is accepted
(`search_eq_some_iff`).
-/

namespace Triage

/-! ## Looking back from a lookahead -/

/-- The same place, but for what stands before it. -/
def Place.Alike (p p' : Place) : Prop := ∃ b, p' = { p with previous := b }

theorem Place.Alike.enter {p p' : Place} (h : p.Alike p') (loop : Nat) :
    (p.enter loop).Alike (p'.enter loop) := by
  obtain ⟨b, rfl⟩ := h
  exact ⟨b, rfl⟩

namespace Regex

/-- Whether what stands before the text decides about its acceptance. -/
def looksBack : Regex → Bool
  | lineStart | wordEdge _ => true
  | seq a b | alt a b => a.looksBack || b.looksBack
  | group _ r | opt _ _ r | star _ _ r | look _ r => r.looksBack
  | empty | byte _ | lineEnd | backref .. => false

/-- Whether a lookahead of the expression looks back. -/
def peeksBack : Regex → Bool
  | look _ r => r.looksBack
  | seq a b | alt a b => a.peeksBack || b.peeksBack
  | group _ r | opt _ _ r | star _ _ r => r.peeksBack
  | empty | byte _ | lineStart | lineEnd | wordEdge _ | backref .. => false

theorem peeksBack_of_looksAhead {r : Regex} (h : r.looksAhead = false) : r.peeksBack = false := by
  induction r with
  | seq a b iha ihb | alt a b iha ihb =>
    simp only [looksAhead, peeksBack, Bool.or_eq_false_iff] at h ⊢
    exact ⟨iha h.1, ihb h.2⟩
  | group _ r ih | opt _ _ r ih | star _ _ r ih => exact ih h
  | look => contradiction
  | empty | byte | lineStart | lineEnd | wordEdge | backref => rfl

variable {c e s : Bool}

/-- Two runs that end alike: both fail, or both end with the same captures. -/
def SameEnd (x y : Option Place) : Prop := x.map Place.captures = y.map Place.captures

theorem sameEnd_either {first second first' second' : Unit → Option Place}
    (hf : SameEnd (first ()) (first' ())) (hs : SameEnd (second ()) (second' ())) :
    SameEnd (either first second) (either first' second') := by
  unfold SameEnd at *
  rw [map_either, map_either, hf, hs]

theorem sameEnd_oneRound {loop : Nat} {greedy : Bool} {p p' : Place}
    {round leave round' leave' : Option Place} (hp : p.Alike p') (hround : SameEnd round round')
    (hleave : SameEnd leave leave') :
    SameEnd (oneRound loop greedy p round leave) (oneRound loop greedy p' round' leave') := by
  obtain ⟨b, rfl⟩ := hp
  unfold SameEnd at *
  rw [map_oneRound, map_oneRound, hround, hleave]
  rfl

theorem runLoop_alike {body body' : Place → (Place → Option Place) → Option Place} {loop : Nat}
    {greedy : Bool}
    (hbody : ∀ {p p' : Place} {next next' : Place → Option Place}, p.Alike p' →
      (∀ q q', q.Alike q' → SameEnd (next q) (next' q')) → SameEnd (body p next) (body' p' next'))
    (fuel : Nat) : ∀ {p p' : Place} {next next' : Place → Option Place}, p.Alike p' →
      (∀ q q', q.Alike q' → SameEnd (next q) (next' q')) →
        SameEnd (runLoop body loop greedy fuel p next)
          (runLoop body' loop greedy fuel p' next') := by
  induction fuel with
  | zero =>
    intro p p' next next' hp hnext
    exact hnext p p' hp
  | succ fuel ih =>
    intro p p' next next' hp hnext
    rw [runLoop_succ, runLoop_succ]
    have hround := hbody (hp.enter loop) fun q q' hq => ih hq hnext
    exact sameEnd_oneRound hp hround (hnext p p' hp)

theorem advanceBy_alike (n : Nat) (p : Place) (b : Option UInt8) :
    (p.advanceBy n).Alike ({ p with previous := b }.advanceBy n) := by
  cases n with
  | zero => exact ⟨b, rfl⟩
  | succ n =>
    simp only [Place.advanceBy]
    split
    · exact ⟨b, rfl⟩
    · exact ⟨_, rfl⟩

/-- An expression that does not look back takes places alike for the same. -/
theorem run_alike {r : Regex} (hr : r.looksBack = false) :
    ∀ {p p' : Place} {next next' : Place → Option Place}, p.Alike p' →
      (∀ q q', q.Alike q' → SameEnd (next q) (next' q')) →
        SameEnd (r.run ⟨c, s⟩ p next) (r.run ⟨e, s⟩ p' next') := by
  induction r with
  | empty =>
    intro p p' next next' hp hnext
    exact hnext p p' hp
  | byte set =>
    rintro p - next next' ⟨b, rfl⟩ hnext
    simp only [run]
    split
    · rfl
    · split
      · exact hnext _ _ ⟨_, rfl⟩
      · rfl
  | lineStart | wordEdge => contradiction
  | lineEnd =>
    rintro p - next next' ⟨b, rfl⟩ hnext
    simp only [run]
    split
    · exact hnext _ _ ⟨_, rfl⟩
    · rfl
  | seq a b iha ihb =>
    intro p p' next next' hp hnext
    simp only [looksBack, Bool.or_eq_false_iff] at hr
    exact iha hr.1 hp fun m m' hm => ihb hr.2 hm hnext
  | alt a b iha ihb =>
    intro p p' next next' hp hnext
    simp only [looksBack, Bool.or_eq_false_iff] at hr
    exact sameEnd_either (iha hr.1 hp hnext) (ihb hr.2 hp hnext)
  | group i r ih =>
    rintro p - next next' ⟨b, rfl⟩ hnext
    refine ih hr ⟨b, rfl⟩ ?_
    rintro q - ⟨b', rfl⟩
    exact hnext _ _ ⟨b', rfl⟩
  | backref i ignoreCase =>
    rintro p - next next' ⟨b, rfl⟩ hnext
    simp only [run]
    split
    · rfl
    · split
      · exact hnext _ _ (advanceBy_alike _ p b)
      · rfl
  | opt loop greedy r ih =>
    intro p p' next next' hp hnext
    rw [run_opt, run_opt]
    exact sameEnd_oneRound hp (ih hr (hp.enter loop) hnext) (hnext p p' hp)
  | star loop greedy r ih =>
    rintro p - next next' ⟨b, rfl⟩ hnext
    exact runLoop_alike (ih hr) _ ⟨b, rfl⟩ hnext
  | look negated r ih =>
    rintro p - next next' ⟨b, rfl⟩ hnext
    have hin : SameEnd (r.run ⟨c, s⟩ (p.inside ⟨c, s⟩) some)
        (r.run ⟨e, s⟩ ({ p with previous := b }.inside ⟨e, s⟩) some) := by
      refine ih hr ⟨_, rfl⟩ ?_
      rintro q - ⟨b', rfl⟩
      rfl
    simp only [run]
    unfold SameEnd at hin
    cases hx : r.run ⟨c, s⟩ (p.inside ⟨c, s⟩) some <;>
      cases hy : r.run ⟨e, s⟩ ({ p with previous := b }.inside ⟨e, s⟩) some <;>
      rw [hx, hy] at hin
    -- Both lookaheads fail, or both succeed; one alone contradicts `hin`.
    · cases negated with
      | false => rfl
      | true => exact hnext p _ ⟨b, rfl⟩
    · contradiction
    · contradiction
    · rename_i q q'
      cases negated with
      | true => rfl
      | false =>
        obtain hq : q.captures = q'.captures := by simpa using hin
        refine hnext _ _ ⟨b, ?_⟩
        rw [hq]

theorem run_inside_alike {r : Regex} (hr : r.looksBack = false) (p : Place) :
    SameEnd (r.run ⟨c, s⟩ (p.inside ⟨c, s⟩) some) (r.run ⟨e, s⟩ (p.inside ⟨e, s⟩) some) := by
  refine run_alike hr ⟨_, rfl⟩ ?_
  rintro q - ⟨b, rfl⟩
  rfl

/-- Whether the view shows what stands before it matters only to a lookahead that looks back. -/
theorem Accepts.continued {r : Regex} {p q : Place} (h : Accepts ⟨c, s⟩ r p q) :
    r.peeksBack = false → Accepts ⟨e, s⟩ r p q := by
  induction h with
  | empty => intro _; exact .empty
  | byte ha hb => intro _; exact .byte ha hb
  | lineStart h => intro _; exact .lineStart h
  | lineEnd ha hv => intro _; exact .lineEnd ha hv
  | wordEdge h => intro _; exact .wordEdge h
  | seq _ _ iha ihb =>
    intro hr
    simp only [peeksBack, Bool.or_eq_false_iff] at hr
    exact .seq (iha hr.1) (ihb hr.2)
  | altLeft _ ih =>
    intro hr
    simp only [peeksBack, Bool.or_eq_false_iff] at hr
    exact .altLeft (ih hr.1)
  | altRight _ ih =>
    intro hr
    simp only [peeksBack, Bool.or_eq_false_iff] at hr
    exact .altRight (ih hr.2)
  | group _ ih => intro hr; exact .group (ih hr)
  | backref hd hrec => intro _; exact .backref hd hrec
  | optOnce he _ ih => intro hr; exact .optOnce he (ih hr)
  | optSkip => intro _; exact .optSkip
  | starLeave => intro _; exact .starLeave
  | starAgain he _ _ ih ihs => intro hr; exact .starAgain he (ih hr) (ihs hr)
  | @look r p q _ h =>
    intro hr
    have hend := run_inside_alike (c := c) (e := e) (s := s) hr p
    rw [h] at hend
    -- The other view may end the lookahead at another place, but with the same captures.
    obtain ⟨q', hq', hcap⟩ : ∃ q', r.run ⟨e, s⟩ (p.inside ⟨e, s⟩) some = some q' ∧
        q'.captures = q.captures := by
      cases hy : r.run ⟨e, s⟩ (p.inside ⟨e, s⟩) some with
      | none => simp [SameEnd, hy] at hend
      | some q' => exact ⟨q', rfl, by simpa [SameEnd, hy] using hend.symm⟩
    obtain ⟨_, ha, he⟩ := run_sound hq'
    cases he
    rw [← hcap]
    exact .look ha hq'
  | @lookNot r p h =>
    intro hr
    have hend := run_inside_alike (c := c) (e := e) (s := s) hr p
    rw [h] at hend
    exact .lookNot (Option.map_eq_none_iff.mp hend.symm)

end Regex

/-! ## Places of a line -/

/-- The place at an offset of a stretch of a line, before anything is accepted; `previous` is the
byte before the stretch. -/
def Place.ofStretch (previous : Option UInt8) (stretch : Text) (i : Nat) : Place :=
  ⟨if i = 0 then previous else stretch[i - 1]?, stretch.drop i, 0, [], []⟩

/-- The place at an offset of a line. -/
def Place.ofLine (line : Text) (i : Nat) : Place := Place.ofStretch none line i

theorem Place.ofStretch_cons (previous : Option UInt8) (b : UInt8) (rest : Text) (i : Nat) :
    Place.ofStretch previous (b :: rest) (i + 1) = Place.ofStretch (some b) rest i := by
  cases i <;> simp [ofStretch]

theorem Place.sound_ofStretch (previous : Option UInt8) (stretch : Text) (i : Nat) :
    (Place.ofStretch previous stretch i).Sound := by
  intro c hc
  contradiction

/-- A whole line: nothing stands before it or after it, and nothing in it is hidden. -/
def View.line : View := ⟨true, false⟩

namespace Regex

/-- The expression matches the `n` bytes of the line from offset `i` on. -/
def MatchesPiece (r : Regex) (line : Text) (i n : Nat) : Prop :=
  i ≤ line.length ∧ ∃ q, Accepts View.line r (Place.ofLine line i) q ∧ q.accepted = n

/-- The expression matches some piece of the line from offset `i` on. -/
def MatchesAt (r : Regex) (line : Text) (i : Nat) : Prop := ∃ n, r.MatchesPiece line i n

/-- A search in the stretch stops at an offset where the expression accepts something. -/
def StopsAt (r : Regex) (previous : Option UInt8) (cutShort : Bool) (stretch : Text) (i : Nat) :
    Prop :=
  i ≤ stretch.length ∧
    ∃ q, Accepts ⟨(Place.ofStretch previous stretch i).previous.isSome, cutShort⟩ r
      (Place.ofStretch previous stretch i) q

/-- In a line that is searched as a whole, the search stops where the line is matched. -/
theorem stopsAt_line_iff {r : Regex} (hr : r.peeksBack = false) {line : Text} {i : Nat} :
    r.StopsAt none false line i ↔ r.MatchesAt line i := by
  constructor
  · rintro ⟨hi, q, hq⟩
    exact ⟨_, hi, q, hq.continued hr, rfl⟩
  · rintro ⟨n, hi, q, hq, -⟩
    exact ⟨hi, q, hq.continued hr⟩

theorem matchAt_isSome_iff {r : Regex} {v : View} {previous : Option UInt8} {ahead : Text} :
    (r.matchAt v previous ahead).isSome ↔ ∃ q, Accepts v r ⟨previous, ahead, 0, [], []⟩ q := by
  rw [matchAt, run_isSome_iff]
  simp

theorem stopsAt_zero {r : Regex} {previous : Option UInt8} {stretch : Text} :
    r.StopsAt previous s stretch 0 ↔
      (r.matchAt ⟨previous.isSome, s⟩ previous stretch).isSome := by
  rw [matchAt_isSome_iff]
  simp [StopsAt, Place.ofStretch]

theorem stopsAt_succ {r : Regex} {previous : Option UInt8} {b : UInt8} {rest : Text} {i : Nat} :
    r.StopsAt previous s (b :: rest) (i + 1) ↔ r.StopsAt (some b) s rest i := by
  rw [StopsAt, StopsAt, Place.ofStretch_cons, List.length_cons, Nat.add_le_add_iff_right]

/-- If the search stops at the start, it stops nowhere else first. -/
theorem stopsFirst_iff_of_zero {r : Regex} {previous : Option UInt8} {stretch : Text} {i : Nat}
    (h : r.StopsAt previous s stretch 0) :
    (r.StopsAt previous s stretch i ∧ ∀ j < i, ¬r.StopsAt previous s stretch j) ↔ i = 0 := by
  constructor
  · rintro ⟨-, hno⟩
    exact Nat.eq_zero_of_not_pos fun hpos => hno 0 hpos h
  · rintro rfl
    exact ⟨h, nofun⟩

theorem searchFrom_of_stopsAt {r : Regex} {previous : Option UInt8} {offset : Nat} {stretch : Text}
    (h : r.StopsAt previous s stretch 0) :
    r.searchFrom ⟨previous.isSome, s⟩ previous offset stretch = some offset := by
  rw [stopsAt_zero] at h
  cases stretch with
  | nil => rw [searchFrom, if_pos h]
  | cons b rest => rw [searchFrom, if_pos h]

theorem searchFrom_nil {r : Regex} {previous : Option UInt8} {offset : Nat}
    (h : ¬r.StopsAt previous s [] 0) :
    r.searchFrom ⟨previous.isSome, s⟩ previous offset [] = none := by
  rw [stopsAt_zero] at h
  rw [searchFrom, if_neg h]

theorem searchFrom_cons {r : Regex} {previous : Option UInt8} {offset : Nat} {b : UInt8}
    {rest : Text} (h : ¬r.StopsAt previous s (b :: rest) 0) :
    r.searchFrom ⟨previous.isSome, s⟩ previous offset (b :: rest) =
      r.searchFrom ⟨(some b).isSome, s⟩ (some b) (offset + 1) rest := by
  rw [stopsAt_zero] at h
  rw [searchFrom, if_neg h]
  rfl

theorem searchFrom_eq_some_iff {r : Regex} {previous : Option UInt8} {offset k : Nat}
    {stretch : Text} :
    r.searchFrom ⟨previous.isSome, s⟩ previous offset stretch = some k ↔
      ∃ i, k = offset + i ∧ r.StopsAt previous s stretch i ∧
        ∀ j < i, ¬r.StopsAt previous s stretch j := by
  induction stretch generalizing previous offset with
  | nil =>
    by_cases h : r.StopsAt previous s [] 0
    · simp only [searchFrom_of_stopsAt h, stopsFirst_iff_of_zero h, exists_eq_right, Nat.add_zero,
        Option.some_inj]
      exact eq_comm
    · rw [searchFrom_nil h]
      refine iff_of_false nofun ?_
      rintro ⟨i, -, hi, -⟩
      obtain rfl := Nat.le_zero.mp hi.1
      exact h hi
  | cons b rest ih =>
    by_cases h : r.StopsAt previous s (b :: rest) 0
    · simp only [searchFrom_of_stopsAt h, stopsFirst_iff_of_zero h, exists_eq_right, Nat.add_zero,
        Option.some_inj]
      exact eq_comm
    · rw [searchFrom_cons h, ih]
      constructor
      · rintro ⟨i, rfl, hi, hno⟩
        refine ⟨i + 1, by omega, stopsAt_succ.mpr hi, fun j hj hstop => ?_⟩
        cases j with
        | zero => exact h hstop
        | succ j => exact hno j (by omega) (stopsAt_succ.mp hstop)
      · rintro ⟨i, rfl, hi, hno⟩
        cases i with
        | zero => exact absurd hi h
        | succ i =>
          exact ⟨i, by omega, stopsAt_succ.mp hi,
            fun j hj hstop => hno (j + 1) (by omega) (stopsAt_succ.mpr hstop)⟩

/-- A search stops at the first offset where it can. -/
theorem search_eq_some_iff {r : Regex} {previous : Option UInt8} {stretch : Text} {i : Nat} :
    r.search previous s stretch = some i ↔
      r.StopsAt previous s stretch i ∧ ∀ j < i, ¬r.StopsAt previous s stretch j := by
  rw [search, searchFrom_eq_some_iff]
  constructor
  · rintro ⟨j, rfl, h⟩
    rwa [Nat.zero_add]
  · exact fun h => ⟨i, (Nat.zero_add i).symm, h⟩

theorem search_isSome {r : Regex} {previous : Option UInt8} {stretch : Text} {i : Nat}
    (h : r.StopsAt previous s stretch i) : (r.search previous s stretch).isSome := by
  classical
  have hex : ∃ i, r.StopsAt previous s stretch i := ⟨i, h⟩
  rw [search_eq_some_iff.mpr ⟨Nat.find_spec hex, fun j hj => Nat.find_min hex hj⟩]
  rfl

end Regex

end Triage
