import Mathlib.Logic.Relation
import Triage.Proofs.Regex.Acceptance

/-!
Which texts an expression accepts as a whole.

A plain expression asks about nothing but the bytes it accepts and the two ends of the text. What it
accepts is then a relation between ends of the text, `Regex.Spans`, that knows neither places nor
numbers of loops. The matcher counts the entries of a loop and starts no third round at one place;
nothing is lost by that, because a round that accepts no byte can be left out
(`exists_accepts_of_spans`). `acceptsWhole_iff` is the result; `Regex.Spells` then says of a part
without anchors which words it accepts, one lemma for each way of putting parts together.
-/

namespace Triage

namespace Place

/-- A place in the text `whole`: nothing stands before it exactly if all of the text is ahead. -/
structure Within (whole : Text) (p : Place) : Prop where
  isSuffix : p.ahead <:+ whole
  previous_eq_none_iff : p.previous = none ↔ p.ahead = whole

theorem Within.advance {whole rest : Text} {p : Place} {b : UInt8} (hp : p.Within whole)
    (h : p.ahead = b :: rest) : (p.advance b rest).Within whole where
  isSuffix := (List.suffix_cons b rest).trans (h ▸ hp.isSuffix)
  previous_eq_none_iff := by
    have hle := hp.isSuffix.length_le
    rw [h, List.length_cons] at hle
    refine iff_of_false (Option.some_ne_none b) fun heq : rest = whole => ?_
    rw [heq] at hle
    omega

theorem Within.enter {whole : Text} {p : Place} (hp : p.Within whole) (loop : Nat) :
    (p.enter loop).Within whole := ⟨hp.isSuffix, hp.previous_eq_none_iff⟩

theorem Within.capture {whole : Text} {p : Place} (hp : p.Within whole) (start : Place)
    (index : Nat) : (p.capture start index).Within whole := ⟨hp.isSuffix, hp.previous_eq_none_iff⟩

theorem entries_eq_zero {p : Place} (h : p.entered = []) (loop : Nat) : p.entries loop = 0 := by
  rw [entries, h]
  rfl

theorem entries_congr {p q : Place} (h : q.entered = p.entered) (loop : Nat) :
    q.entries loop = p.entries loop := by
  rw [entries, entries, h]

end Place

namespace Regex

/-! ## Plain expressions -/

/-- The numbers of the loops of an expression. -/
def loops : Regex → List Nat
  | seq a b | alt a b => a.loops ++ b.loops
  | group _ r | look _ r => r.loops
  | opt loop _ r | star loop _ r => loop :: r.loops
  | _ => []

/-- The expression asks about nothing but the bytes it accepts and the two ends of the text, and
no loop has the number of one around it. -/
def isPlain : Regex → Bool
  | empty | byte _ | lineStart | lineEnd => true
  | seq a b | alt a b => a.isPlain && b.isPlain
  | group _ r => r.isPlain
  | opt loop _ r | star loop _ r => r.isPlain && !r.loops.contains loop
  | wordEdge _ | backref .. | look .. => false

/-- The expression accepts what the end `s` of the text `whole` holds before its end `t`. -/
def Spans (whole : Text) : Regex → Text → Text → Prop
  | empty => fun s t => s = t
  | byte set => fun s t => ∃ b, s = b :: t ∧ set.mem b
  | lineStart => fun s t => s = t ∧ s = whole
  | lineEnd => fun s t => s = t ∧ s = []
  | seq a b => fun s t => ∃ m, Spans whole a s m ∧ Spans whole b m t
  | alt a b => fun s t => Spans whole a s t ∨ Spans whole b s t
  | group _ r => Spans whole r
  | opt _ _ r => fun s t => s = t ∨ Spans whole r s t
  | star _ _ r => Relation.ReflTransGen (Spans whole r)
  | wordEdge _ | backref .. | look .. => fun _ _ => False

variable {whole : Text} {v : View}

theorem Accepts.spans {r : Regex} {p q : Place} (h : Accepts v r p q) (hr : r.isPlain)
    (hp : p.Within whole) : Spans whole r p.ahead q.ahead ∧ q.Within whole := by
  induction h with
  | empty => exact ⟨rfl, hp⟩
  | byte ha hb => exact ⟨⟨_, ha, hb⟩, hp.advance ha⟩
  | lineStart h => exact ⟨⟨rfl, hp.previous_eq_none_iff.mp h⟩, hp⟩
  | lineEnd ha => exact ⟨⟨rfl, ha⟩, hp⟩
  | wordEdge | backref | look | lookNot => contradiction
  | seq _ _ iha ihb =>
    rw [isPlain, Bool.and_eq_true] at hr
    obtain ⟨ha, hm⟩ := iha hr.1 hp
    obtain ⟨hb, hq⟩ := ihb hr.2 hm
    exact ⟨⟨_, ha, hb⟩, hq⟩
  | altLeft _ ih =>
    rw [isPlain, Bool.and_eq_true] at hr
    exact (ih hr.1 hp).imp_left Or.inl
  | altRight _ ih =>
    rw [isPlain, Bool.and_eq_true] at hr
    exact (ih hr.2 hp).imp_left Or.inr
  | group _ ih =>
    obtain ⟨hs, hq⟩ := ih hr hp
    exact ⟨hs, hq.capture _ _⟩
  | optOnce _ _ ih =>
    rw [isPlain, Bool.and_eq_true] at hr
    exact (ih hr.1 (hp.enter _)).imp_left Or.inr
  | optSkip => exact ⟨Or.inl rfl, hp⟩
  | starLeave => exact ⟨.refl, hp⟩
  | starAgain _ _ _ ih ihs =>
    obtain ⟨hbody, hm⟩ := ih (Bool.and_eq_true_iff.mp hr).1 (hp.enter _)
    obtain ⟨hrest, hq⟩ := ihs hr hm
    exact ⟨.head hbody hrest, hq⟩

/-- No loop of the expression was entered at the place. -/
def Fresh (r : Regex) (p : Place) : Prop := ∀ loop ∈ r.loops, p.entries loop = 0

/-- The place `q` in front of `t` that comes after `p`: it has moved on and forgotten the entries,
or nothing has changed them. -/
structure Arrives (whole : Text) (p : Place) (t : Text) (q : Place) : Prop where
  ahead_eq : q.ahead = t
  within : q.Within whole
  entered : q.entered = [] ∨ t = p.ahead ∧ q.entered = p.entered

theorem Arrives.refl {p : Place} (hp : p.Within whole) : Arrives whole p p.ahead p :=
  ⟨rfl, hp, Or.inr ⟨rfl, rfl⟩⟩

theorem Arrives.trans {p m q : Place} {s t : Text} (hm : Arrives whole p s m)
    (hq : Arrives whole m t q) : Arrives whole p t q where
  ahead_eq := hq.ahead_eq
  within := hq.within
  entered := by
    rcases hq.entered with h | ⟨ht, h⟩
    · exact Or.inl h
    · rw [h, ht, hm.ahead_eq]
      exact hm.entered

theorem Arrives.entries_le {p q : Place} {t : Text} (h : Arrives whole p t q) (loop : Nat) :
    q.entries loop ≤ p.entries loop := by
  rcases h.entered with h | ⟨-, h⟩
  · rw [Place.entries_eq_zero h loop]
    exact Nat.zero_le _
  · exact Nat.le_of_eq (Place.entries_congr h loop)

theorem Fresh.of_arrives {r : Regex} {p q : Place} {t : Text} (hf : Fresh r p)
    (h : Arrives whole p t q) : Fresh r q := fun loop hloop =>
  Nat.le_zero.mp (hf loop hloop ▸ h.entries_le loop)

/-- A round that accepts a byte leaves no trace of having been entered. -/
theorem Arrives.of_enter {p q : Place} {t : Text} {loop : Nat}
    (h : Arrives whole (p.enter loop) t q) (ht : t ≠ p.ahead) : Arrives whole p t q where
  ahead_eq := h.ahead_eq
  within := h.within
  entered := Or.inl (h.entered.resolve_right fun heq => ht heq.1)

theorem Fresh.enter {r : Regex} {p : Place} {loop : Nat} (hf : Fresh r p)
    (hloop : loop ∉ r.loops) : Fresh r (p.enter loop) := by
  intro loop' hmem
  have hne : loop' ≠ loop := fun heq => hloop (heq ▸ hmem)
  rw [Place.entries_enter, if_neg hne, hf loop' hmem]

/-- The matcher finds its way along all that a plain expression spans. -/
theorem exists_accepts_of_spans (hv : v.cutShort = false) {r : Regex} (hr : r.isPlain) :
    ∀ {p : Place} {t : Text}, Spans whole r p.ahead t → p.Within whole → Fresh r p →
      ∃ q, Accepts v r p q ∧ Arrives whole p t q := by
  induction r with
  | empty =>
    rintro p t rfl hp -
    exact ⟨p, .empty, .refl hp⟩
  | byte set =>
    rintro p t ⟨b, hs, hb⟩ hp -
    exact ⟨p.advance b t, .byte hs hb, rfl, hp.advance hs, Or.inl rfl⟩
  | lineStart =>
    rintro p t ⟨rfl, hs⟩ hp -
    exact ⟨p, .lineStart (hp.previous_eq_none_iff.mpr hs), .refl hp⟩
  | lineEnd =>
    rintro p t ⟨rfl, hs⟩ hp -
    exact ⟨p, .lineEnd hs hv, .refl hp⟩
  | wordEdge | backref | look => contradiction
  | seq a b iha ihb =>
    rintro p t ⟨s, ha, hb⟩ hp hf
    rw [isPlain, Bool.and_eq_true] at hr
    obtain ⟨m, ham, hm⟩ := iha hr.1 ha hp fun loop h => hf loop (List.mem_append_left _ h)
    have hfb : Fresh b p := fun loop h => hf loop (List.mem_append_right _ h)
    obtain ⟨q, hbq, hq⟩ := ihb hr.2 (hm.ahead_eq ▸ hb) hm.within (hfb.of_arrives hm)
    exact ⟨q, .seq ham hbq, hm.trans hq⟩
  | alt a b iha ihb =>
    rintro p t h hp hf
    rw [isPlain, Bool.and_eq_true] at hr
    rcases h with h | h
    · obtain ⟨q, ha, hq⟩ := iha hr.1 h hp fun loop h => hf loop (List.mem_append_left _ h)
      exact ⟨q, .altLeft ha, hq⟩
    · obtain ⟨q, hb, hq⟩ := ihb hr.2 h hp fun loop h => hf loop (List.mem_append_right _ h)
      exact ⟨q, .altRight hb, hq⟩
  | group i r ih =>
    intro p t h hp hf
    obtain ⟨q, ha, hq⟩ := ih hr h hp hf
    exact ⟨q.capture p i, .group ha, hq.ahead_eq, hq.within.capture p i, hq.entered⟩
  | opt loop greedy r ih =>
    intro p t h hp hf
    simp only [isPlain, Bool.and_eq_true, Bool.not_eq_true', List.contains_eq_mem,
      decide_eq_false_iff_not] at hr
    by_cases ht : t = p.ahead
    · exact ⟨p, .optSkip, ht ▸ .refl hp⟩
    · have hbody : Spans whole r (p.enter loop).ahead t := h.resolve_left (Ne.symm ht)
      have hfr : Fresh r p := fun loop' h => hf loop' (List.mem_cons_of_mem _ h)
      obtain ⟨q, ha, hq⟩ := ih hr.1 hbody (hp.enter loop) (hfr.enter hr.2)
      have hzero : p.entries loop = 0 := hf loop List.mem_cons_self
      exact ⟨q, .optOnce (by omega) ha, hq.of_enter ht⟩
  | star loop greedy r ih =>
    intro p t h hp hf
    simp only [isPlain, Bool.and_eq_true, Bool.not_eq_true', List.contains_eq_mem,
      decide_eq_false_iff_not] at hr
    -- along the rounds; one that accepts nothing is left out
    generalize hs : p.ahead = s at h
    induction h using Relation.ReflTransGen.head_induction_on generalizing p with
    | refl => exact ⟨p, .starLeave, hs ▸ .refl hp⟩
    | @head s m hbody _ ihs =>
      by_cases hm : m = p.ahead
      · exact ihs hp hf hm.symm
      · have hfr : Fresh r p := fun loop' h => hf loop' (List.mem_cons_of_mem _ h)
        obtain ⟨q, ha, hq⟩ := ih hr.1 (hs ▸ hbody) (hp.enter loop) (hfr.enter hr.2)
        have hq := hq.of_enter hm
        obtain ⟨q', ha', hq'⟩ := ihs hq.within (hf.of_arrives hq) hq.ahead_eq
        have hzero : p.entries loop = 0 := hf loop List.mem_cons_self
        exact ⟨q', .starAgain (by omega) ha ha', hq.trans hq'⟩

/-- A plain expression accepts the texts it spans from one end to the other. -/
theorem acceptsWhole_iff {r : Regex} (hr : r.isPlain) {text : Text} :
    r.acceptsWhole text ↔ Spans text r text [] := by
  have hp : (⟨none, text, 0, [], []⟩ : Place).Within text := ⟨List.suffix_rfl, by simp⟩
  rw [acceptsWhole, run_isSome_iff]
  constructor
  · rintro ⟨q, hq, hnext⟩
    have hahead : q.ahead = [] := by
      split at hnext
      · exact List.isEmpty_iff.mp ‹_›
      · contradiction
    exact hahead ▸ (hq.spans hr hp).1
  · intro h
    obtain ⟨q, hq, harr⟩ := exists_accepts_of_spans (v := ⟨false, false⟩) rfl hr h hp
      fun loop _ => Place.entries_eq_zero rfl loop
    exact ⟨q, hq, by simp [harr.ahead_eq]⟩

/-! ## The words of a part -/

/-- Wherever it stands, the expression accepts the words of `L` and no others. -/
def Spells (r : Regex) (L : Text → Prop) : Prop :=
  ∀ whole s t, Spans whole r s t ↔ ∃ w, L w ∧ s = w ++ t

theorem Spells.congr {r : Regex} {L L' : Text → Prop} (h : Spells r L) (hL : ∀ w, L w ↔ L' w) :
    Spells r L' := fun whole s t => by simp only [h whole s t, hL]

theorem spells_empty : Spells empty (· = []) := by
  intro whole s t
  simp [Spans]

theorem spells_byte (set : ByteSet) : Spells (byte set) fun w => ∃ b, set.mem b ∧ w = [b] := by
  intro whole s t
  constructor
  · rintro ⟨b, hs, hb⟩
    exact ⟨[b], ⟨b, hb, rfl⟩, hs⟩
  · rintro ⟨w, ⟨b, hb, rfl⟩, hs⟩
    exact ⟨b, hs, hb⟩

theorem Spells.seq {a b : Regex} {A B : Text → Prop} (ha : Spells a A) (hb : Spells b B) :
    Spells (seq a b) fun w => ∃ u, A u ∧ ∃ u', B u' ∧ w = u ++ u' := by
  intro whole s t
  constructor
  · rintro ⟨m, hm, ht⟩
    obtain ⟨u, hu, rfl⟩ := (ha whole s m).mp hm
    obtain ⟨u', hu', rfl⟩ := (hb whole m t).mp ht
    exact ⟨u ++ u', ⟨u, hu, u', hu', rfl⟩, (List.append_assoc ..).symm⟩
  · rintro ⟨w, ⟨u, hu, u', hu', rfl⟩, rfl⟩
    exact ⟨u' ++ t, (ha whole _ _).mpr ⟨u, hu, List.append_assoc ..⟩,
      (hb whole _ _).mpr ⟨u', hu', rfl⟩⟩

theorem Spells.seq_empty {r : Regex} {L : Text → Prop} (h : Spells r L) :
    Spells (Regex.seq r empty) L :=
  (h.seq spells_empty).congr fun w => by simp

theorem Spells.alt {a b : Regex} {A B : Text → Prop} (ha : Spells a A) (hb : Spells b B) :
    Spells (alt a b) fun w => A w ∨ B w := by
  intro whole s t
  simp only [Spans, ha whole s t, hb whole s t, or_and_right, exists_or]

theorem Spells.group {r : Regex} {L : Text → Prop} (h : Spells r L) (i : Nat) :
    Spells (group i r) L := h

theorem Spells.opt {r : Regex} {L : Text → Prop} (h : Spells r L) (loop : Nat) (greedy : Bool) :
    Spells (opt loop greedy r) fun w => w = [] ∨ L w := by
  intro whole s t
  simp only [Spans, h whole s t, or_and_right, exists_or, exists_eq_left, List.nil_append]

theorem spells_star_byte (loop : Nat) (greedy : Bool) (set : ByteSet) :
    Spells (star loop greedy (byte set)) fun w => ∀ b ∈ w, set.mem b := by
  intro whole s t
  constructor
  · intro h
    induction h using Relation.ReflTransGen.head_induction_on with
    | refl => exact ⟨[], by simp, rfl⟩
    | head hbody _ ih =>
      obtain ⟨b, hs, hb⟩ := hbody
      obtain ⟨w, hw, rfl⟩ := ih
      exact ⟨b :: w, List.forall_mem_cons.mpr ⟨hb, hw⟩, hs⟩
  · rintro ⟨w, hw, rfl⟩
    induction w with
    | nil => exact .refl
    | cons b w ih =>
      obtain ⟨hb, hw⟩ := List.forall_mem_cons.mp hw
      exact .head ⟨b, rfl, hb⟩ (ih hw)

/-- The bytes of `word` one after the other, and then `r`. -/
def literals (word : Text) (r : Regex) : Regex :=
  word.foldr (fun b r => seq (byte (ByteSet.literal false b)) r) r

theorem mem_literal (b c : UInt8) : (ByteSet.literal false b).mem c ↔ c = b := by
  simp [ByteSet.mem, ByteSet.literal, ByteRange.mem]

theorem spells_literal (b : UInt8) : Spells (byte (ByteSet.literal false b)) (· = [b]) :=
  (spells_byte _).congr fun w => by simp [mem_literal]

theorem spans_literals {word s t : Text} {r : Regex} :
    Spans whole (literals word r) s t ↔ ∃ m, s = word ++ m ∧ Spans whole r m t := by
  induction word generalizing s with
  | nil => simp [literals]
  | cons b word ih =>
    constructor
    · rintro ⟨m, ⟨c, rfl, hc⟩, hm⟩
      obtain rfl : c = b := (mem_literal b c).mp hc
      obtain ⟨m', rfl, hm'⟩ := ih.mp hm
      exact ⟨m', rfl, hm'⟩
    · rintro ⟨m, rfl, hm⟩
      exact ⟨word ++ m, ⟨b, rfl, (mem_literal b b).mpr rfl⟩, ih.mpr ⟨m, rfl, hm⟩⟩

theorem Spells.literals {r : Regex} {L : Text → Prop} (h : Spells r L) (word : Text) :
    Spells (literals word r) fun w => ∃ u, L u ∧ w = word ++ u := by
  intro whole s t
  rw [spans_literals]
  constructor
  · rintro ⟨m, rfl, hm⟩
    obtain ⟨u, hu, rfl⟩ := (h whole m t).mp hm
    exact ⟨word ++ u, ⟨u, hu, rfl⟩, (List.append_assoc ..).symm⟩
  · rintro ⟨w, ⟨u, hu, rfl⟩, rfl⟩
    exact ⟨u ++ t, List.append_assoc .., (h whole _ t).mpr ⟨u, hu, rfl⟩⟩

theorem spells_literals (word : Text) : Spells (Regex.literals word empty) (· = word) :=
  (spells_empty.literals word).congr fun w => by simp

/-- One byte of the set or more. -/
def oneOrMore (loop : Nat) (set : ByteSet) : Regex := seq (byte set) (star loop true (byte set))

theorem spells_oneOrMore (loop : Nat) (set : ByteSet) :
    Spells (oneOrMore loop set) fun w => w ≠ [] ∧ ∀ b ∈ w, set.mem b := by
  refine ((spells_byte set).seq (spells_star_byte loop true set)).congr fun w => ?_
  constructor
  · rintro ⟨-, ⟨b, hb, rfl⟩, w, hw, rfl⟩
    exact ⟨List.cons_ne_nil b w, List.forall_mem_cons.mpr ⟨hb, hw⟩⟩
  · rintro ⟨hne, hw⟩
    obtain ⟨b, w, rfl⟩ := List.exists_cons_of_ne_nil hne
    obtain ⟨hb, hw⟩ := List.forall_mem_cons.mp hw
    exact ⟨[b], ⟨b, hb, rfl⟩, w, hw, rfl⟩

/-- One byte of the set, and for each loop one more. -/
def oneAndUpTo (set : ByteSet) : List Nat → Regex
  | [] => seq (byte set) empty
  | loop :: loops => seq (byte set) (opt loop true (oneAndUpTo set loops))

theorem spells_oneAndUpTo (set : ByteSet) (loops : List Nat) : Spells (oneAndUpTo set loops)
    fun w => w ≠ [] ∧ w.length ≤ loops.length + 1 ∧ ∀ b ∈ w, set.mem b := by
  induction loops with
  | nil =>
    refine (spells_byte set).seq_empty.congr fun w => ?_
    constructor
    · rintro ⟨b, hb, rfl⟩
      exact ⟨List.cons_ne_nil b [], Nat.le_refl _, by simpa using hb⟩
    · rintro ⟨hne, hlen, hw⟩
      obtain ⟨b, rfl⟩ := List.length_eq_one_iff.mp
        (Nat.le_antisymm hlen (List.length_pos_iff.mpr hne))
      exact ⟨b, hw b List.mem_cons_self, rfl⟩
  | cons loop loops ih =>
    -- One byte, and then either nothing or at least one more.
    refine ((spells_byte set).seq (ih.opt loop true)).congr fun w => ?_
    constructor
    · rintro ⟨-, ⟨b, hb, rfl⟩, w, hw, rfl⟩
      refine ⟨List.cons_ne_nil b w, ?_, ?_⟩
      · rcases hw with rfl | ⟨-, hlen, -⟩
        · simp
        · simpa using hlen
      · rcases hw with rfl | ⟨-, -, hw⟩
        · simpa using hb
        · exact List.forall_mem_cons.mpr ⟨hb, hw⟩
    · rintro ⟨hne, hlen, hw⟩
      obtain ⟨b, w, rfl⟩ := List.exists_cons_of_ne_nil hne
      obtain ⟨hb, hw⟩ := List.forall_mem_cons.mp hw
      refine ⟨[b], ⟨b, hb, rfl⟩, w, ?_, rfl⟩
      by_cases hnil : w = []
      · exact Or.inl hnil
      · exact Or.inr ⟨hnil, by simpa using hlen, hw⟩

/-! ## Parts between the two ends of a text -/

theorem spans_lineStart {r : Regex} {t : Text} :
    Spans whole (seq lineStart r) whole t ↔ Spans whole r whole t := by
  simp [Spans]

theorem spans_lineEnd {s t : Text} : Spans whole (seq lineEnd empty) s t ↔ s = [] ∧ t = [] := by
  simp only [Spans]
  constructor
  · rintro ⟨m, ⟨rfl, rfl⟩, rfl⟩
    exact ⟨rfl, rfl⟩
  · rintro ⟨rfl, rfl⟩
    exact ⟨[], ⟨rfl, rfl⟩, rfl⟩

theorem Spells.spans_seq {a b : Regex} {A : Text → Prop} (ha : Spells a A) {s t : Text} :
    Spans whole (Regex.seq a b) s t ↔ ∃ w, A w ∧ ∃ m, s = w ++ m ∧ Spans whole b m t := by
  constructor
  · rintro ⟨m, hm, ht⟩
    obtain ⟨w, hw, hs⟩ := (ha whole s m).mp hm
    exact ⟨w, hw, m, hs, ht⟩
  · rintro ⟨w, hw, m, hs, ht⟩
    exact ⟨m, (ha whole s m).mpr ⟨w, hw, hs⟩, ht⟩

end Regex

end Triage
