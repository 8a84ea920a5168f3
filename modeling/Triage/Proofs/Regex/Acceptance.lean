import Triage.Regex.Match

/-!
What backtracking finds.

`Regex.Accepts v r p q` says that `r` can accept the text between the places `p` and `q`; it names
every way of doing so and prefers none. Backtracking finds a way if there is one: `run_sound` and
`run_complete`. The bound on the rounds of a loop is never what ends it, since a round that accepts
nothing counts as an entry at its place, and two entries are the most (`runLoop_congr`).
-/

namespace Triage

/-! ## Later places -/

namespace Place

/-- `q` is reached from `p`: bytes were accepted, or at least no entry was forgotten. -/
def Later (p q : Place) : Prop :=
  q.ahead.length < p.ahead.length ∨
    q.ahead.length = p.ahead.length ∧ ∀ loop, p.entries loop ≤ q.entries loop

theorem Later.refl (p : Place) : p.Later p := Or.inr ⟨rfl, fun _ => Nat.le_refl _⟩

theorem Later.trans {p q m : Place} (hpq : p.Later q) (hqm : q.Later m) : p.Later m := by
  rcases hpq with h | ⟨h, he⟩ <;> rcases hqm with h' | ⟨h', he'⟩
  · exact Or.inl (by omega)
  · exact Or.inl (by omega)
  · exact Or.inl (by omega)
  · exact Or.inr ⟨by omega, fun loop => Nat.le_trans (he loop) (he' loop)⟩

theorem Later.length_le {p q : Place} (h : p.Later q) : q.ahead.length ≤ p.ahead.length := by
  rcases h with h | ⟨h, -⟩ <;> omega

theorem entries_enter (p : Place) (loop loop' : Nat) :
    (p.enter loop).entries loop' = p.entries loop' + if loop' = loop then 1 else 0 := by
  unfold entries enter
  rw [List.lookup_cons]
  by_cases h : loop' = loop
  · simp [h, entries]
  · rw [beq_eq_false_iff_ne.mpr h, if_neg h]
    rfl

theorem later_enter (p : Place) (loop : Nat) : p.Later (p.enter loop) :=
  Or.inr ⟨rfl, fun loop' => by rw [entries_enter]; omega⟩

theorem later_advance {p : Place} {b : UInt8} {rest : Text} (h : p.ahead = b :: rest) :
    p.Later (p.advance b rest) := Or.inl (by simp [advance, h])

theorem later_advanceBy (n : Nat) (p : Place) : p.Later (p.advanceBy n) := by
  induction n generalizing p with
  | zero => exact Later.refl p
  | succ n ih =>
    simp only [advanceBy]
    split
    · exact Later.refl p
    · rename_i b rest h
      exact (later_advance h).trans (ih _)

theorem advanceBy_accepted_add_length (n : Nat) (p : Place) :
    (p.advanceBy n).accepted + (p.advanceBy n).ahead.length = p.accepted + p.ahead.length := by
  induction n generalizing p with
  | zero => rfl
  | succ n ih =>
    simp only [advanceBy]
    split
    · rfl
    · rename_i b rest h
      rw [ih]
      simp only [advance, h, List.length_cons]
      omega

theorem later_capture {p q : Place} (h : p.Later q) (start : Place) (i : Nat) :
    p.Later (q.capture start i) := h

/-- A bound on the rounds that a loop can still make from a place. -/
def roundsLeft (p : Place) (loop : Nat) : Nat := 2 * p.ahead.length + (2 - p.entries loop)

theorem roundsLeft_lt {p q : Place} {loop : Nat} (he : p.entries loop < 2)
    (h : (p.enter loop).Later q) : q.roundsLeft loop < p.roundsLeft loop := by
  unfold roundsLeft
  rcases h with h | ⟨h, hq⟩
  -- Either bytes were accepted, which is worth two rounds, or the entry was noted.
  · have : (p.enter loop).ahead = p.ahead := rfl
    rw [this] at h
    omega
  · have : (p.enter loop).ahead = p.ahead := rfl
    rw [this] at h
    have := hq loop
    rw [entries_enter, if_pos rfl] at this
    omega

end Place

namespace Regex

/-! ## Accepting -/

/-- `r` can accept what stands between two places of the view. -/
inductive Accepts (v : View) : Regex → Place → Place → Prop where
  | empty {p} : Accepts v empty p p
  | byte {set p b rest} (ha : p.ahead = b :: rest) (hb : set.mem b) :
    Accepts v (byte set) p (p.advance b rest)
  | lineStart {p} (h : p.previous = none) : Accepts v lineStart p p
  | lineEnd {p} (ha : p.ahead = []) (hv : v.cutShort = false) : Accepts v lineEnd p p
  | wordEdge {negated p} (h : p.atWordEdge = !negated) : Accepts v (wordEdge negated) p p
  | seq {a b p m q} (ha : Accepts v a p m) (hb : Accepts v b m q) : Accepts v (seq a b) p q
  | altLeft {a b p q} (ha : Accepts v a p q) : Accepts v (alt a b) p q
  | altRight {a b p q} (hb : Accepts v b p q) : Accepts v (alt a b) p q
  | group {i r p q} (h : Accepts v r p q) : Accepts v (group i r) p (q.capture p i)
  | backref {i ignoreCase p c} (hc : p.captures.lookup i = some c)
    (h : c.recurs ignoreCase p.ahead) : Accepts v (backref i ignoreCase) p (p.advanceBy c.size)
  | optOnce {loop greedy r p q} (he : p.entries loop < 2) (h : Accepts v r (p.enter loop) q) :
    Accepts v (opt loop greedy r) p q
  | optSkip {loop greedy r p} : Accepts v (opt loop greedy r) p p
  | starLeave {loop greedy r p} : Accepts v (star loop greedy r) p p
  | starAgain {loop greedy r p m q} (he : p.entries loop < 2) (h : Accepts v r (p.enter loop) m)
    (hs : Accepts v (star loop greedy r) m q) : Accepts v (star loop greedy r) p q
  /-- What a lookahead remembers is what the first way of accepting gives. -/
  | look {r p q} (ha : Accepts v r (p.inside v) q) (h : r.run v (p.inside v) some = some q) :
    Accepts v (look false r) p { p with captures := q.captures }
  | lookNot {r p} (h : r.run v (p.inside v) some = none) : Accepts v (look true r) p p

variable {v : View}

theorem Accepts.later {r : Regex} {p q : Place} (h : Accepts v r p q) : p.Later q := by
  induction h with
  | empty | lineStart | lineEnd | wordEdge | optSkip | starLeave | lookNot => exact .refl _
  | byte ha => exact Place.later_advance ha
  | seq _ _ iha ihb => exact iha.trans ihb
  | altLeft _ ih | altRight _ ih => exact ih
  | group _ ih => exact Place.later_capture ih _ _
  | backref => exact Place.later_advanceBy _ _
  | optOnce _ _ ih => exact (Place.later_enter _ _).trans ih
  | starAgain _ _ _ ih ihs => exact ((Place.later_enter _ _).trans ih).trans ihs
  | look => exact .refl _

/-- What is no longer ahead was accepted. -/
theorem Accepts.accepted_add_length {r : Regex} {p q : Place} (h : Accepts v r p q) :
    q.accepted + q.ahead.length = p.accepted + p.ahead.length := by
  induction h with
  | empty | lineStart | lineEnd | wordEdge | optSkip | starLeave | look | lookNot => rfl
  | byte ha =>
    simp only [Place.advance, ha, List.length_cons]
    omega
  | seq _ _ iha ihb => exact ihb.trans iha
  | altLeft _ ih | altRight _ ih | group _ ih | optOnce _ _ ih => exact ih
  | backref => exact Place.advanceBy_accepted_add_length _ _
  | starAgain _ _ _ ih ihs => exact ihs.trans ih

/-! ## One way, or else another -/

theorem either_eq_some {α : Type} {first second : Unit → Option α} {a : α}
    (h : either first second = some a) : first () = some a ∨ second () = some a := by
  unfold either at h
  split at h
  · rename_i b hb
    exact Or.inl (hb.trans h)
  · exact Or.inr h

theorem either_isSome {α : Type} (first second : Unit → Option α) :
    (either first second).isSome = ((first ()).isSome || (second ()).isSome) := by
  unfold either
  split
  · rename_i h
    simp [h]
  · rename_i h
    simp [h]

theorem map_either {α β : Type} (f : α → β) (first second : Unit → Option α) :
    (either first second).map f =
      either (fun _ => (first ()).map f) (fun _ => (second ()).map f) := by
  unfold either
  cases first () <;> rfl

/-- What a loop tries at a place: a round, if one may start there, or to be left; a greedy one
prefers the round. -/
def oneRound {α : Type} (loop : Nat) (greedy : Bool) (p : Place) (round leave : Option α) :
    Option α :=
  let again := if p.entries loop < 2 then round else none
  if greedy then either (fun _ => again) (fun _ => leave)
  else either (fun _ => leave) (fun _ => again)

theorem run_opt (loop : Nat) (greedy : Bool) (r : Regex) (p : Place)
    (next : Place → Option Place) : (opt loop greedy r).run v p next =
      oneRound loop greedy p (r.run v (p.enter loop) next) (next p) := rfl

theorem runLoop_succ (body : Place → (Place → Option Place) → Option Place) (loop : Nat)
    (greedy : Bool) (fuel : Nat) (p : Place) (next : Place → Option Place) :
    runLoop body loop greedy (fuel + 1) p next = oneRound loop greedy p
      (body (p.enter loop) fun q => runLoop body loop greedy fuel q next) (next p) := rfl

section OneRound

variable {α β : Type} {loop : Nat} {greedy : Bool} {p : Place} {round leave : Option α}

theorem oneRound_eq_some {a : α} (h : oneRound loop greedy p round leave = some a) :
    p.entries loop < 2 ∧ round = some a ∨ leave = some a := by
  simp only [oneRound] at h
  split at h
  · rcases either_eq_some h with h | h
    · exact Or.inl (by simpa using h)
    · exact Or.inr h
  · rcases either_eq_some h with h | h
    · exact Or.inr h
    · exact Or.inl (by simpa using h)

theorem oneRound_isSome : (oneRound loop greedy p round leave).isSome ↔
    p.entries loop < 2 ∧ round.isSome ∨ leave.isSome := by
  unfold oneRound
  by_cases he : p.entries loop < 2
  · cases greedy <;> simp [either_isSome, he, or_comm]
  · cases greedy <;> simp [either_isSome, he]

/-- Where no round may start, the loop is left. -/
theorem oneRound_of_le (he : ¬p.entries loop < 2) : oneRound loop greedy p round leave = leave := by
  simp only [oneRound, if_neg he, either]
  cases greedy <;> cases leave <;> rfl

theorem oneRound_congr {round' : Option α} (h : p.entries loop < 2 → round = round') :
    oneRound loop greedy p round leave = oneRound loop greedy p round' leave := by
  by_cases he : p.entries loop < 2
  · rw [h he]
  · rw [oneRound_of_le he, oneRound_of_le he]

theorem map_oneRound (f : α → β) : (oneRound loop greedy p round leave).map f =
    oneRound loop greedy p (round.map f) (leave.map f) := by
  by_cases he : p.entries loop < 2
  · cases greedy <;> simp [oneRound, map_either, he]
  · rw [oneRound_of_le he, oneRound_of_le he]

end OneRound

/-! ## Backtracking finds only what is accepted -/

theorem runLoop_sound {r : Regex} {loop : Nat} {greedy : Bool}
    (hr : ∀ {p : Place} {next : Place → Option Place} {a : Place}, r.run v p next = some a →
      ∃ q, Accepts v r p q ∧ next q = some a) :
    ∀ {fuel : Nat} {p : Place} {next : Place → Option Place} {a : Place},
      runLoop (run v r) loop greedy fuel p next = some a →
        ∃ q, Accepts v (star loop greedy r) p q ∧ next q = some a := by
  intro fuel
  induction fuel with
  | zero =>
    intro p next a h
    exact ⟨p, .starLeave, h⟩
  | succ fuel ih =>
    intro p next a h
    rw [runLoop_succ] at h
    rcases oneRound_eq_some h with ⟨he, h⟩ | h
    · obtain ⟨m, hm, h⟩ := hr h
      obtain ⟨q, hq, h⟩ := ih h
      exact ⟨q, .starAgain he hm hq, h⟩
    · exact ⟨p, .starLeave, h⟩

theorem run_sound {r : Regex} : ∀ {p : Place} {next : Place → Option Place} {a : Place},
    r.run v p next = some a → ∃ q, Accepts v r p q ∧ next q = some a := by
  induction r with
  | empty =>
    intro p next a h
    exact ⟨p, .empty, h⟩
  | byte set =>
    intro p next a h
    simp only [run] at h
    split at h
    · contradiction
    · rename_i b rest ha
      split at h
      · rename_i hb
        exact ⟨_, .byte ha hb, h⟩
      · contradiction
  | lineStart =>
    intro p next a h
    simp only [run] at h
    split at h
    · rename_i hp
      exact ⟨p, .lineStart (by simpa using hp), h⟩
    · contradiction
  | lineEnd =>
    intro p next a h
    simp only [run] at h
    split at h
    · rename_i hp
      simp only [Bool.and_eq_true, List.isEmpty_iff, Bool.not_eq_true'] at hp
      exact ⟨p, .lineEnd hp.1 hp.2, h⟩
    · contradiction
  | wordEdge negated =>
    intro p next a h
    simp only [run] at h
    split at h
    · rename_i hp
      exact ⟨p, .wordEdge (by cases negated <;> simpa using hp), h⟩
    · contradiction
  | seq r s ihr ihs =>
    intro p next a h
    obtain ⟨m, hm, h⟩ := ihr h
    obtain ⟨q, hq, h⟩ := ihs h
    exact ⟨q, .seq hm hq, h⟩
  | alt r s ihr ihs =>
    intro p next a h
    rcases either_eq_some h with h | h
    · obtain ⟨q, hq, h⟩ := ihr h
      exact ⟨q, .altLeft hq, h⟩
    · obtain ⟨q, hq, h⟩ := ihs h
      exact ⟨q, .altRight hq, h⟩
  | group i r ih =>
    intro p next a h
    obtain ⟨q, hq, h⟩ := ih h
    exact ⟨_, .group hq, h⟩
  | backref i ignoreCase =>
    intro p next a h
    simp only [run] at h
    split at h
    · contradiction
    · rename_i c hc
      split at h
      · rename_i hrec
        exact ⟨_, .backref hc hrec, h⟩
      · contradiction
  | opt loop greedy r ih =>
    intro p next a h
    rw [run_opt] at h
    rcases oneRound_eq_some h with ⟨he, h⟩ | h
    · obtain ⟨q, hq, h⟩ := ih h
      exact ⟨q, .optOnce he hq, h⟩
    · exact ⟨p, .optSkip, h⟩
  | star loop greedy r ih =>
    intro p next a h
    exact runLoop_sound ih h
  | look negated r ih =>
    intro p next a h
    simp only [run] at h
    split at h
    · rename_i q hq
      cases negated with
      | false =>
        obtain ⟨q', ha, hq'⟩ := ih hq
        obtain rfl : q' = q := by simpa using hq'
        exact ⟨_, .look ha hq, h⟩
      | true => contradiction
    · rename_i hnone
      cases negated with
      | false => contradiction
      | true => exact ⟨p, .lookNot hnone, h⟩

/-! ## Backtracking finds all that is accepted -/

/-- What follows a loop matters at later places only, and so do bounds that leave enough rounds. -/
theorem runLoop_congr {body : Place → (Place → Option Place) → Option Place} {loop : Nat}
    {greedy : Bool}
    (hbody : ∀ {p : Place} {next next' : Place → Option Place},
      (∀ q, p.Later q → next q = next' q) → body p next = body p next') :
    ∀ {fuel fuel' : Nat} {p : Place} {next next' : Place → Option Place},
      p.roundsLeft loop ≤ fuel → p.roundsLeft loop ≤ fuel' →
      (∀ q, p.Later q → next q = next' q) →
        runLoop body loop greedy fuel p next = runLoop body loop greedy fuel' p next' := by
  -- no further round starts where none is left
  have hover : ∀ {fuel : Nat} {p : Place} {next : Place → Option Place}, p.roundsLeft loop = 0 →
      runLoop body loop greedy fuel p next = next p := by
    intro fuel p next h
    have he : ¬p.entries loop < 2 := by unfold Place.roundsLeft at h; omega
    cases fuel with
    | zero => rfl
    | succ fuel => exact oneRound_of_le he
  intro fuel
  induction fuel with
  | zero =>
    intro fuel' p next next' h h' hnext
    rw [hover (by omega), hover (by omega), hnext p (.refl p)]
  | succ fuel ih =>
    intro fuel' p next next' h h' hnext
    cases fuel' with
    | zero => rw [hover (by omega), hover (by omega), hnext p (.refl p)]
    | succ fuel' =>
      rw [runLoop_succ, runLoop_succ, hnext p (.refl p)]
      refine oneRound_congr fun he => hbody fun q hq => ?_
      have hlt := Place.roundsLeft_lt he hq
      exact ih (by omega) (by omega) fun m hm =>
        hnext m (((Place.later_enter p loop).trans hq).trans hm)

/-- What follows is asked about later places only. -/
theorem run_congr {r : Regex} : ∀ {p : Place} {next next' : Place → Option Place},
    (∀ q, p.Later q → next q = next' q) → r.run v p next = r.run v p next' := by
  induction r with
  | empty =>
    intro p next next' h
    exact h p (.refl p)
  | byte set =>
    intro p next next' h
    simp only [run]
    split
    · rfl
    · rename_i b rest ha
      rw [h _ (Place.later_advance ha)]
  | lineStart | lineEnd | wordEdge =>
    intro p next next' h
    simp only [run, h p (.refl p)]
  | seq r s ihr ihs =>
    intro p next next' h
    exact ihr fun m hm => ihs fun q hq => h q (hm.trans hq)
  | alt r s ihr ihs =>
    intro p next next' h
    simp only [run, ihr h, ihs h]
  | group i r ih =>
    intro p next next' h
    -- A group only notes what it accepted, so what follows it is asked at a later place still.
    exact ih fun q hq => h _ (Place.later_capture hq p i)
  | backref i ignoreCase =>
    intro p next next' h
    simp only [run]
    split
    · rfl
    · rw [h _ (Place.later_advanceBy _ p)]
  | opt loop greedy r ih =>
    intro p next next' h
    have honce : r.run v (p.enter loop) next = r.run v (p.enter loop) next' :=
      ih fun q hq => h q ((Place.later_enter p loop).trans hq)
    rw [run_opt, run_opt, honce, h p (.refl p)]
  | star loop greedy r ih =>
    intro p next next' h
    exact runLoop_congr ih (by unfold Place.roundsLeft; omega) (by unfold Place.roundsLeft; omega) h
  | look negated r ih =>
    intro p next next' h
    simp only [run]
    split
    · rename_i q _
      rw [h { p with captures := q.captures } (.refl p)]
    · rw [h p (.refl p)]

theorem run_complete {r : Regex} {p q : Place} (h : Accepts v r p q) :
    ∀ {next : Place → Option Place}, (next q).isSome → (r.run v p next).isSome := by
  induction h with
  | empty | look | lookNot =>
    intro next hn
    simp_all [run]
  | byte ha hb =>
    intro next hn
    simp [run, ha, hb, hn]
  | lineStart hp =>
    intro next hn
    simp [run, hp, hn]
  | lineEnd ha hv =>
    intro next hn
    simp [run, ha, hv, hn]
  | wordEdge hp =>
    intro next hn
    simp [run, hp, hn]
  | seq _ _ iha ihb =>
    intro next hn
    exact iha (ihb hn)
  | altLeft _ ih =>
    intro next hn
    simp [run, either_isSome, ih hn]
  | altRight _ ih =>
    intro next hn
    simp [run, either_isSome, ih hn]
  | group _ ih =>
    intro next hn
    exact ih hn
  | backref hc hrec =>
    intro next hn
    simp [run, hc, hrec, hn]
  | optOnce he _ ih =>
    intro next hn
    rw [run_opt]
    exact oneRound_isSome.mpr (Or.inl ⟨he, ih hn⟩)
  | optSkip =>
    intro next hn
    rw [run_opt]
    exact oneRound_isSome.mpr (Or.inr hn)
  | starLeave =>
    intro next hn
    rw [run, runLoop_succ]
    exact oneRound_isSome.mpr (Or.inr hn)
  | @starAgain loop greedy r p m q he h _ ih ihs =>
    intro next hn
    have hlt := Place.roundsLeft_lt he h.later
    -- the rounds left for the rest of the loop are those it would have on its own
    have heq : runLoop (run v r) loop greedy (2 * p.ahead.length + 1) m next =
        (star loop greedy r).run v m next :=
      runLoop_congr run_congr (by unfold Place.roundsLeft at *; omega)
        (by unfold Place.roundsLeft; omega) fun _ _ => rfl
    have hrest : (runLoop (run v r) loop greedy (2 * p.ahead.length + 1) m next).isSome := by
      rw [heq]
      exact ihs hn
    rw [run, runLoop_succ]
    refine oneRound_isSome.mpr (Or.inl ⟨he, ?_⟩)
    exact @ih (fun q => runLoop (run v r) loop greedy (2 * p.ahead.length + 1) q next) hrest

/-- Backtracking finds a way of accepting exactly if there is one. -/
theorem run_isSome_iff {r : Regex} {p : Place} {next : Place → Option Place} :
    (r.run v p next).isSome ↔ ∃ q, Accepts v r p q ∧ (next q).isSome := by
  constructor
  · intro h
    obtain ⟨a, ha⟩ := Option.isSome_iff_exists.mp h
    obtain ⟨q, hq, hn⟩ := run_sound ha
    exact ⟨q, hq, by rw [hn]; rfl⟩
  · rintro ⟨q, hq, hn⟩
    exact run_complete hq hn

end Regex

end Triage
