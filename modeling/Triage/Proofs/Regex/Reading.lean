import Triage.Regex.Pattern

/-!
Reading a pattern with enough steps.

The cutter and the reader of patterns are given a number of steps, which goes by the length of the
pattern and by the number of its tokens; a pattern that needs more would be refused as if it were
ill formed. None does. Whatever is cut off a text leaves at most that text (`length_next?`), and
whatever is read leaves at most the tokens that were there, one less if a term was read
(`Reading.Takes`). So a reader that has five steps for each token left, and a few for the way down
to the next one, reads with one step more what it reads now (`Reading.Alike`, `Reading.steady`).

`Denotes` says what a pattern means however many steps that takes; `Regex.ofPattern?` is exactly
that (`ofPattern?_eq_some_iff`).
-/

namespace Triage

namespace Pattern

/-! ## Tokens -/

theorem length_dropWhile (p : UInt8 → Bool) (s : Text) : (s.dropWhile p).length ≤ s.length :=
  (List.dropWhile_suffix p).length_le

theorem length_hexDigits? {n value : Nat} {s : Text} {read : Nat × Text}
    (h : hexDigits? n value s = some read) : read.2.length ≤ s.length := by
  fun_induction hexDigits? n value s <;> grind

theorem length_escape? {inSet : Bool} {s : Text} {read : PatternToken × Text}
    (h : escape? inSet s = some read) : read.2.length ≤ s.length := by
  revert h
  fun_cases escape? inSet s <;> intro h <;>
    grind [Option.map_eq_some_iff, → length_hexDigits?, length_dropWhile]

theorem length_parenthesis? {s : Text} {read : PatternToken × Text}
    (h : parenthesis? s = some read) : read.2.length ≤ s.length := by
  unfold parenthesis? at h
  grind

theorem length_bracketName? {mark : UInt8} {s : Text} {read : Text × Text}
    (h : bracketName? mark s = some read) : read.2.length ≤ s.length := by
  have hmark := length_dropWhile (· != mark) s
  unfold bracketName? at h
  grind

theorem length_next? {mode : Mode} {b : UInt8} {s : Text} {read : PatternToken × Mode × Text}
    (h : next? mode b s = some read) : read.2.2.length ≤ s.length := by
  revert h
  fun_cases next? mode b s <;> intro h <;>
    grind [Option.map_eq_some_iff, → length_escape?, → length_parenthesis?, → length_bracketName?,
      length_dropWhile]

theorem tokensFrom_succ {fuel : Nat} {s : Text} (h : s.length ≤ fuel) (mode : Mode) :
    tokensFrom (fuel + 1) mode s = tokensFrom fuel mode s := by
  induction fuel generalizing s mode with
  | zero =>
    rw [List.length_eq_zero_iff.mp (Nat.le_zero.mp h)]
    rfl
  | succ fuel ih =>
    cases s with
    | nil => rfl
    | cons b s =>
      rw [tokensFrom, tokensFrom]
      cases hnext : next? mode b s with
      | none => rfl
      | some read =>
        have hrest : read.2.2.length ≤ fuel :=
          Nat.le_trans (length_next? hnext) (Nat.le_of_succ_le_succ h)
        exact congrArg (Option.map (read.1 :: ·)) (ih hrest read.2.1)

/-- A step for each byte is enough. -/
theorem tokensFrom_of_le {fuel : Nat} {pattern : Text} (h : pattern.length ≤ fuel) :
    tokensFrom fuel .plain pattern = tokens pattern := by
  induction h with
  | refl => rfl
  | step hle ih => exact (tokensFrom_succ hle .plain).trans ih

namespace Reading

/-! ## Two readings side by side -/

variable {α β : Type} {r : Reader} {m m' : Reading α} {f f' : α → Reading β} {cost : α → Nat}

/-- From this reader, the two readings give the same and take at least so many tokens. -/
structure Alike (r : Reader) (cost : α → Nat) (m m' : Reading α) : Prop where
  same : m' r = m r
  takes : ∀ a r', m r = some (a, r') → r'.tokens.length + cost a ≤ r.tokens.length

namespace Alike

theorem of_le {c : α → Nat} (h : Alike r c m m') (hle : ∀ a, cost a ≤ c a) : Alike r cost m m' :=
  ⟨h.same, fun a r' hr => Nat.le_trans (Nat.add_le_add_left (hle a) _) (h.takes a r' hr)⟩

theorem pure (a : α) (h : cost a = 0) : Alike r cost (Pure.pure a) (Pure.pure a) := by
  refine ⟨rfl, fun b r' hr => ?_⟩
  obtain ⟨rfl, rfl⟩ := Prod.mk.inj (Option.some.inj hr)
  rw [h]
  exact Nat.le_refl _

theorem failure : Alike r cost Alternative.failure Alternative.failure := ⟨rfl, nofun⟩

theorem bind {c : β → Nat} (h : Alike r cost m m')
    (hf : ∀ a r', r'.tokens.length + cost a ≤ r.tokens.length →
      Alike r' (fun b => c b - cost a) (f a) (f' a)) :
    Alike r c (m >>= f) (m' >>= f') := by
  constructor
  · show (m' r).bind (fun p => f' p.1 p.2) = (m r).bind fun p => f p.1 p.2
    rw [h.same]
    exact Option.bind_congr fun p hp => (hf p.1 p.2 (h.takes p.1 p.2 hp)).same
  · intro b r'' hr
    obtain ⟨⟨a, r'⟩, hm, hb⟩ := Option.bind_eq_some_iff.mp hr
    have hfirst := h.takes a r' hm
    have hsecond : r''.tokens.length + (c b - cost a) ≤ r'.tokens.length :=
      (hf a r' hfirst).takes b r'' hb
    omega

theorem map {c : β → Nat} {g : α → β} (h : Alike r (fun a => c (g a)) m m') :
    Alike r c (g <$> m) (g <$> m') := by
  constructor
  · show (m' r).bind (fun p => some (g p.1, p.2)) = (m r).bind fun p => some (g p.1, p.2)
    rw [h.same]
  · intro b r'' hr
    obtain ⟨⟨a, r'⟩, hm, hb⟩ := Option.bind_eq_some_iff.mp hr
    obtain ⟨rfl, rfl⟩ := Prod.mk.inj (Option.some.inj hb)
    exact h.takes a r' hm

/-- The next token is looked at and stays. -/
theorem peek_bind {f f' : Option PatternToken → Reading β} {c : β → Nat}
    (h : Alike r c (f r.tokens.head?) (f' r.tokens.head?)) :
    Alike r c (peek >>= f) (peek >>= f') :=
  ⟨h.same, h.takes⟩

theorem get_bind {f f' : Reader → Reading β} {c : β → Nat} (h : Alike r c (f r) (f' r)) :
    Alike r c (get >>= f) (get >>= f') :=
  ⟨h.same, h.takes⟩

theorem modify_bind {f f' : Unit → Reading β} {c : β → Nat} {ts : List PatternToken}
    (hts : ts.length ≤ r.tokens.length)
    (h : Alike { r with tokens := ts } c (f ()) (f' ())) :
    Alike r c (modify (fun r => { r with tokens := ts }) >>= f)
      (modify (fun r => { r with tokens := ts }) >>= f') :=
  ⟨h.same, fun b r' hr => Nat.le_trans (h.takes b r' hr) hts⟩

theorem skip_bind {f f' : Unit → Reading β} {c : β → Nat}
    {t : PatternToken} {ts : List PatternToken} (htokens : r.tokens = t :: ts)
    (h : ∀ r' : Reader, r'.tokens = ts → Alike r' (fun b => c b - 1) (f ()) (f' ())) :
    Alike r c (skip >>= f) (skip >>= f') := by
  have hnext := h { r with tokens := r.tokens.drop 1 } (by rw [htokens]; rfl)
  refine ⟨hnext.same, fun b r'' hr => ?_⟩
  have htaken : r''.tokens.length + (c b - 1) ≤ (r.tokens.drop 1).length :=
    hnext.takes b r'' hr
  rw [htokens] at htaken ⊢
  simp at htaken ⊢
  omega

theorem ite {p : Prop} [Decidable p] {m₁ m₁' : Reading α} (h : p → Alike r cost m m')
    (h' : ¬p → Alike r cost m₁ m₁') :
    Alike r cost (if p then m else m₁) (if p then m' else m₁') := by
  by_cases hp : p
  · simpa only [if_pos hp] using h hp
  · simpa only [if_neg hp] using h' hp

end Alike

/-- Whatever the reading gives, it takes at least so many tokens. -/
def Takes (m : Reading α) (cost : α → Nat) : Prop := ∀ r, Alike r cost m m

namespace Takes

theorem bind {c : β → Nat} (h : Takes m cost) (hf : ∀ a, Takes (f a) fun b => c b - cost a) :
    Takes (m >>= f) c :=
  fun r => (h r).bind fun a r' _ => hf a r'

/-- A reading that need not take a token, before others. -/
theorem andThen {c : β → Nat} (h : Takes m fun _ => 0) (hf : ∀ a, Takes (f a) c) :
    Takes (m >>= f) c :=
  h.bind hf

theorem ite {p : Prop} [Decidable p] (h : p → Takes m cost) (h' : ¬p → Takes m' cost) :
    Takes (if p then m else m') cost :=
  fun r => .ite (fun hp => h hp r) fun hp => h' hp r

theorem weaken (h : Takes m cost) : Takes m fun _ => 0 :=
  fun r => (h r).of_le fun _ => Nat.zero_le _

/-- A reading that leaves the tokens as they are. -/
theorem of_tokens_eq {f : Reader → α × Reader} (h : ∀ r, (f r).2.tokens = r.tokens) :
    Takes (fun r => some (f r)) fun _ => 0 := by
  intro r
  refine ⟨rfl, fun a r' hr => ?_⟩
  have htokens := h r
  rw [Option.some.inj hr] at htokens
  rw [htokens]
  exact Nat.le_refl _

end Takes

/-! ## The parts without recursion -/

theorem takes_pure (a : α) : Takes (pure a) fun _ => 0 := fun _ => .pure a rfl

theorem takes_charge (n : Nat) : Takes (charge n) fun _ => 0 := by
  intro r
  refine ⟨rfl, fun a r' h => ?_⟩
  rw [charge] at h
  split at h
  · obtain ⟨-, rfl⟩ := Prod.mk.inj (Option.some.inj h)
    exact Nat.le_refl _
  · contradiction

theorem takes_newLoop : Takes newLoop fun _ => 0 := .of_tokens_eq fun _ => rfl

theorem takes_startGroup : Takes startGroup fun _ => 0 := .of_tokens_eq fun _ => rfl

theorem takes_endGroup : Takes endGroup fun _ => 0 := .of_tokens_eq fun _ => rfl

theorem takes_copy (e : Regex) : Takes (copy e) fun _ => 0 := .of_tokens_eq fun _ => rfl

theorem takes_accept (t : PatternToken) : Takes (accept t) fun taken => if taken then 1 else 0 := by
  refine fun r => ⟨rfl, fun a r' h => ?_⟩
  rw [accept] at h
  split at h
  · next u ts htokens =>
    split at h
    · obtain ⟨rfl, rfl⟩ := Prod.mk.inj (Option.some.inj h)
      simp [htokens]
    · obtain ⟨rfl, rfl⟩ := Prod.mk.inj (Option.some.inj h)
      exact Nat.le_refl _
  · obtain ⟨rfl, rfl⟩ := Prod.mk.inj (Option.some.inj h)
    exact Nat.le_refl _

/-- A token that may be there: what follows it need not take one. -/
theorem Takes.acceptOr {t : PatternToken} (hle : ∀ a, cost a ≤ 1) (h : Takes m fun _ => 0)
    (h' : Takes m' cost) : Takes (accept t >>= fun taken => if taken then m else m') cost := by
  refine (takes_accept t).bind fun taken r => .ite (fun ht => ⟨rfl, fun a r' hr => ?_⟩) fun ht => ?_
  · have htaken : r'.tokens.length + 0 ≤ r.tokens.length := (h r).takes a r' hr
    have hcost := hle a
    rw [if_pos ht]
    omega
  · simpa only [if_neg ht, Nat.sub_zero] using h' r

theorem takes_expect (t : PatternToken) : Takes (expect t) fun _ => 0 := by
  unfold expect
  refine (takes_accept t).bind fun taken r => ?_
  exact .ite (fun _ => .failure) fun _ => .pure _ (Nat.zero_sub _)

theorem takes_single (e : Regex) : Takes (single e) fun _ => 0 :=
  (takes_charge 1).andThen fun _ _ => .pure _ rfl

theorem takes_copies (e : Regex) (n : Nat) (last : Regex) : Takes (copies e n last) fun _ => 0 := by
  induction n with
  | zero => exact fun _ => .pure _ rfl
  | succ n ih => exact (takes_copy e).andThen fun _ => ih.andThen fun _ _ => .pure _ rfl

theorem takes_optionalCopies (e : Regex) (greedy : Bool) (n : Nat) :
    Takes (optionalCopies e greedy n) fun _ => 0 := by
  induction n with
  | zero => exact fun _ => .pure _ rfl
  | succ n ih =>
    exact takes_newLoop.andThen fun _ => (takes_copy e).andThen fun _ =>
      ih.andThen fun _ _ => .pure _ rfl

theorem takes_countNumber : Takes countNumber fun _ => 0 := by
  intro r
  unfold countNumber
  refine .peek_bind ?_
  cases htokens : r.tokens with
  | nil => exact .pure _ rfl
  | cons t ts =>
    cases t with
    | count digits =>
      refine .skip_bind htokens fun r' _ => ?_
      cases number? digits with
      | none => exact .failure
      | some n => exact .pure _ rfl
    | _ => exact .pure _ rfl

theorem takes_repeated (p : Part) : Takes (repeated p) fun _ => 0 := by
  unfold repeated
  refine takes_countNumber.andThen fun least => ?_
  cases least with
  | none => exact fun _ => .failure
  | some least =>
    refine (takes_accept _).weaken.andThen fun comma => ?_
    split
    case' isTrue =>
      refine takes_countNumber.andThen fun most => ?_
      cases most
    -- Whatever the bounds are, the end of the count and the copies come after them.
    all_goals
      refine (takes_pure _).andThen fun bounds => (takes_expect _).andThen fun _ =>
        (takes_accept _).weaken.andThen fun _ => ?_
      refine .ite (fun _ => .ite (fun _ _ => .failure) fun _ => ?_) fun _ => ?_
      · exact (takes_charge _).andThen fun _ => (takes_optionalCopies _ _ _).andThen fun _ =>
          (takes_copies _ _ _).andThen fun _ => takes_pure _
      · exact (takes_charge _).andThen fun _ => takes_newLoop.andThen fun _ =>
          (takes_copy _).andThen fun _ => (takes_copies _ _ _).andThen fun _ => takes_pure _

theorem takes_quantified (p : Part) :
    Takes (quantified p) fun next => if next.isSome then 1 else 0 := by
  unfold quantified
  have hle : ∀ next : Option Part, (if next.isSome then 1 else 0) ≤ 1 := by
    intro next
    split <;> simp
  have hlazy {m : Bool → Reading (Option Part)} (h : ∀ greedy, Takes (m greedy) fun _ => 0) :
      Takes (accept .question >>= m) fun _ => 0 := (takes_accept _).weaken.andThen h
  refine .acceptOr hle (hlazy fun _ => ?_) <| .acceptOr hle (hlazy fun _ => ?_) <|
    .acceptOr hle (hlazy fun _ => ?_) <| .acceptOr hle ?_ fun _ => .pure _ rfl
  · exact (takes_charge 1).andThen fun _ => takes_newLoop.andThen fun _ => takes_pure _
  · exact (takes_charge 1).andThen fun _ => takes_newLoop.andThen fun _ => takes_pure _
  · exact (takes_charge 2).andThen fun _ => takes_newLoop.andThen fun _ => takes_pure _
  · exact (takes_repeated p).andThen fun _ => takes_pure _

theorem takes_quantifiers (fuel : Nat) (p : Part) : Takes (quantifiers fuel p) fun _ => 0 := by
  induction fuel generalizing p with
  | zero => exact takes_pure p
  | succ fuel ih =>
    rw [quantifiers]
    refine (takes_quantified p).weaken.andThen fun next => ?_
    cases next with
    | none => exact takes_pure p
    | some p => exact ih p

theorem alike_quantifiers {fuel : Nat} {r : Reader} (h : r.tokens.length ≤ fuel) (p : Part) :
    Alike r (fun _ => 0) (quantifiers fuel p) (quantifiers (fuel + 1) p) := by
  induction fuel generalizing r p with
  | zero =>
    -- Nothing is left to read, so one look more finds no quantifier.
    obtain htokens : r.tokens = [] := List.length_eq_zero_iff.mp (Nat.le_zero.mp h)
    have hnone : quantified p r = some (none, r) := by
      obtain ⟨ignoreCase, tokens, nextGroup, openGroups, nextLoop, states⟩ := r
      obtain rfl : tokens = [] := htokens
      rfl
    refine ⟨?_, (takes_quantifiers 0 p r).takes⟩
    show (quantified p r).bind _ = _
    rw [hnone]
    rfl
  | succ fuel ih =>
    rw [quantifiers, quantifiers]
    refine (takes_quantified p r).bind fun next r' htaken => ?_
    cases next with
    | none => exact .pure p rfl
    | some p =>
      refine ih ?_ p
      simp at htaken
      omega

theorem takes_backrefTo (digits : Text) : Takes (backrefTo digits) fun _ => 0 := by
  intro r
  unfold backrefTo
  cases number? digits with
  | none => exact .failure
  | some index =>
    refine .get_bind ?_
    exact .ite (fun _ => takes_single _ r) fun _ => .failure

end Reading

theorem length_bracket? {ignoreCase : Bool} {ts rest : List PatternToken} {s : SetSoFar}
    {ranges : List ByteRange} (h : bracket? ignoreCase ts s = some (ranges, rest)) :
    rest.length ≤ ts.length := by
  fun_induction bracket? ignoreCase ts s <;> grind

theorem length_set? {ignoreCase negated : Bool} {ts rest : List PatternToken} {set : ByteSet}
    (h : set? ignoreCase negated ts = some (set, rest)) : rest.length ≤ ts.length := by
  unfold set? at h
  obtain ⟨⟨ranges, rest'⟩, hread, hset⟩ := Option.map_eq_some_iff.mp h
  obtain ⟨-, rfl⟩ := Prod.mk.inj hset
  split at hread
  · exact Nat.le_succ_of_le (length_bracket? hread)
  · exact Nat.le_succ_of_le (length_bracket? hread)
  · exact length_bracket? hread

namespace Reading

/-! ## Expressions -/

/-- With enough steps for the tokens that are left, one step more makes no difference. An expression
calls an alternative, that a term and that an atom before a token is taken, so each asks for a step
less than its caller. -/
structure Steady (steps : Nat) : Prop where
  disjunction : ∀ r : Reader, 5 * r.tokens.length + 5 ≤ steps →
    Alike r (fun _ => 0) (disjunction steps) (disjunction (steps + 1))
  furtherAlternatives : ∀ (r : Reader) (left : Part), 5 * r.tokens.length + 4 ≤ steps →
    Alike r (fun _ => 0) (furtherAlternatives steps left) (furtherAlternatives (steps + 1) left)
  alternative : ∀ r : Reader, 5 * r.tokens.length + 4 ≤ steps →
    Alike r (fun _ => 0) (alternative steps) (alternative (steps + 1))
  term : ∀ r : Reader, 5 * r.tokens.length + 3 ≤ steps →
    Alike r (fun next => if next.isSome then 1 else 0) (term steps) (term (steps + 1))
  atom : ∀ (r : Reader) (t : PatternToken) (ts : List PatternToken), r.tokens = t :: ts →
    5 * r.tokens.length + 2 ≤ steps →
    Alike r (fun next => if next.isSome then 1 else 0) (atom steps t) (atom (steps + 1) t)

variable {steps : Nat}

theorem Steady.disjunction_succ (h : Steady steps) {r : Reader}
    (hr : 5 * r.tokens.length + 5 ≤ steps + 1) :
    Alike r (fun _ => 0) (Reading.disjunction (steps + 1)) (Reading.disjunction (steps + 2)) := by
  rw [Reading.disjunction, Reading.disjunction]
  refine (h.alternative r (by omega)).bind fun first r' htaken => ?_
  exact h.furtherAlternatives r' first (by omega)

theorem Steady.furtherAlternatives_succ (h : Steady steps) {r : Reader} (left : Part)
    (hr : 5 * r.tokens.length + 4 ≤ steps + 1) :
    Alike r (fun _ => 0) (Reading.furtherAlternatives (steps + 1) left)
      (Reading.furtherAlternatives (steps + 2) left) := by
  rw [Reading.furtherAlternatives, Reading.furtherAlternatives]
  refine (takes_accept .bar r).bind fun taken r' htaken =>
    .ite (fun ht => ?_) fun _ => .pure _ (Nat.zero_sub _)
  rw [if_pos ht] at htaken
  refine (h.alternative r' (by omega)).bind fun right r'' htaken' => ?_
  refine (takes_charge 2 r'').bind fun _ r''' htaken'' => ?_
  exact (h.furtherAlternatives r''' ⟨.alt left.regex right.regex, left.size + right.size + 2⟩
    (by omega)).of_le fun _ => by simp

theorem Steady.alternative_succ (h : Steady steps) {r : Reader}
    (hr : 5 * r.tokens.length + 4 ≤ steps + 1) :
    Alike r (fun _ => 0) (Reading.alternative (steps + 1)) (Reading.alternative (steps + 2)) := by
  rw [Reading.alternative, Reading.alternative]
  refine (h.term r (by omega)).bind fun next r' htaken => ?_
  cases next with
  | none => exact takes_single _ r'
  | some first =>
    simp only [Option.isSome_some, if_true] at htaken
    exact (h.alternative r' (by omega)).bind fun rest r'' _ => .pure _ rfl

theorem Steady.term_succ (h : Steady steps) {r : Reader}
    (hr : 5 * r.tokens.length + 3 ≤ steps + 1) :
    Alike r (fun next => if next.isSome then 1 else 0) (Reading.term (steps + 1))
      (Reading.term (steps + 2)) := by
  rw [Reading.term, Reading.term]
  refine .peek_bind ?_
  cases htokens : r.tokens with
  | nil => exact .pure _ rfl
  | cons t ts =>
    have hlength : r.tokens.length = ts.length + 1 := congrArg List.length htokens
    cases t with
    | lineStart => exact .skip_bind htokens fun r' _ => Alike.map (takes_single _ r')
    | lineEnd => exact .skip_bind htokens fun r' _ => Alike.map (takes_single _ r')
    | wordEdge negated => exact .skip_bind htokens fun r' _ => Alike.map (takes_single _ r')
    | openLook negated =>
      refine .skip_bind htokens fun r' htokens' => ?_
      rw [← htokens'] at hlength
      refine (h.disjunction r' (by omega)).bind fun body r'' _ => ?_
      refine (takes_expect .close r'').bind fun _ r''' _ => ?_
      exact (takes_charge 2 r''').bind fun _ _ _ => .pure _ rfl
    | _ =>
      -- Any other token starts an atom, or ends the alternative.
      refine (h.atom r _ ts htokens (by omega)).bind fun next r' htaken => ?_
      cases next with
      | none => exact .pure _ rfl
      | some p =>
        simp only [Option.isSome_some, if_true] at htaken
        exact .map (alike_quantifiers (by omega) p)

theorem Steady.atom_succ (h : Steady steps) {r : Reader} {t : PatternToken}
    {ts : List PatternToken} (htokens : r.tokens = t :: ts)
    (hr : 5 * r.tokens.length + 2 ≤ steps + 1) :
    Alike r (fun next => if next.isSome then 1 else 0) (Reading.atom (steps + 1) t)
      (Reading.atom (steps + 2) t) := by
  have hlength : r.tokens.length = ts.length + 1 := congrArg List.length htokens
  -- Once the token is known, both sides reduce to its case.
  cases t with
  | anyByte => exact .skip_bind htokens fun r' _ => Alike.map (takes_single _ r')
  | byte b => exact .skip_bind htokens fun r' _ => .get_bind (.map (takes_single _ r'))
  | backref digits => exact .skip_bind htokens fun r' _ => Alike.map (takes_backrefTo digits r')
  | classEscape negated c => exact .skip_bind htokens fun r' _ => Alike.map (takes_single _ r')
  | openPlain =>
    refine .skip_bind htokens fun r' htokens' => ?_
    rw [← htokens'] at hlength
    refine (takes_charge 1 r').bind fun _ r'' htaken => ?_
    refine (h.disjunction r'' (by omega)).bind fun body r''' _ => ?_
    exact (takes_expect .close r''').bind fun _ _ _ => .pure _ rfl
  | openGroup =>
    refine .skip_bind htokens fun r' htokens' => ?_
    rw [← htokens'] at hlength
    refine (takes_charge 2 r').bind fun _ r₁ htaken => ?_
    refine (takes_startGroup r₁).bind fun index r₂ htaken' => ?_
    refine (h.disjunction r₂ (by omega)).bind fun body r₃ _ => ?_
    refine (takes_expect .close r₃).bind fun _ r₄ _ => ?_
    exact (takes_endGroup r₄).bind fun _ _ _ => .pure _ rfl
  | openSet negated =>
    refine .skip_bind htokens fun r' _ => .get_bind ?_
    cases hset : set? r'.ignoreCase negated r'.tokens with
    | none => exact .failure
    | some read => exact .modify_bind (length_set? hset) (.map (takes_single _ _))
  | _ =>
    -- No atom starts with any other token.
    exact .pure none rfl

theorem steady (steps : Nat) : Steady steps := by
  induction steps with
  | zero =>
    -- No reader can do without steps.
    exact ⟨fun _ h => absurd h (by omega), fun _ _ h => absurd h (by omega),
      fun _ h => absurd h (by omega), fun _ h => absurd h (by omega),
      fun _ _ _ _ h => absurd h (by omega)⟩
  | succ steps ih =>
    exact ⟨fun _ => ih.disjunction_succ, fun _ left => ih.furtherAlternatives_succ left,
      fun _ => ih.alternative_succ, fun _ => ih.term_succ, fun _ _ _ => ih.atom_succ⟩

/-- Five steps for each token and five more are enough. -/
theorem disjunction_of_le {fuel : Nat} {r : Reader} (h : 5 * r.tokens.length + 5 ≤ fuel) :
    disjunction fuel r = disjunction (5 * r.tokens.length + 5) r := by
  induction h with
  | refl => rfl
  | step hle ih => exact ((steady _).disjunction r hle).same.trans ih

/-- The reader before the first token. -/
def start (ignoreCase : Bool) (ts : List PatternToken) : Reader := ⟨ignoreCase, ts, 1, [0], 0, 3⟩

end Reading

/-! ## Patterns -/

/-- With so many steps the pattern is read to its end, as that expression. -/
def ReadsIn (steps : Nat) (ignoreCase : Bool) (pattern : Text) (e : Regex) : Prop :=
  ∃ ts part r, tokensFrom steps .plain pattern = some ts ∧
    Reading.disjunction steps (Reading.start ignoreCase ts) = some (part, r) ∧
    r.tokens = [] ∧ part.regex = e

/-- The pattern is read as that expression, given enough steps. A reader that has too few does not
always fail, since it may overlook a quantifier; so the steps count as enough only if more of them
make no difference. -/
def Denotes (ignoreCase : Bool) (pattern : Text) (e : Regex) : Prop :=
  ∃ enough, ∀ steps, enough ≤ steps → ReadsIn steps ignoreCase pattern e

/-- The pattern can be read to its end, given enough steps. -/
def IsWellFormed (ignoreCase : Bool) (pattern : Text) : Prop := ∃ e, Denotes ignoreCase pattern e

/-- With a step for each byte and what the tokens need, nothing is refused for want of steps. -/
theorem readsIn_iff {steps : Nat} {ignoreCase : Bool} {pattern : Text} {e : Regex}
    (hpattern : pattern.length ≤ steps)
    (htokens : ∀ ts, tokens pattern = some ts → 5 * ts.length + 5 ≤ steps) :
    ReadsIn steps ignoreCase pattern e ↔ Regex.ofPattern? ignoreCase pattern = some e := by
  unfold ReadsIn Regex.ofPattern?
  rw [tokensFrom_of_le hpattern]
  cases hts : tokens pattern with
  | none => simp
  | some ts =>
    have hsteps : Reading.disjunction steps (Reading.start ignoreCase ts) =
        Reading.disjunction (5 * ts.length + 5) (Reading.start ignoreCase ts) :=
      Reading.disjunction_of_le (htokens ts hts)
    constructor
    · rintro ⟨_, part, r, ⟨⟩, hread, hend, rfl⟩
      rw [hsteps, Reading.start] at hread
      simp only [hread, hend, List.isEmpty_nil, if_true]
    · intro h
      dsimp only at h
      split at h
      · next part r hread =>
        split at h
        · next hend =>
          exact ⟨ts, part, r, rfl, hsteps.trans hread, List.isEmpty_iff.mp hend, Option.some.inj h⟩
        · contradiction
      · contradiction

/-- The reader answers what the pattern denotes, and nothing for any other pattern. -/
theorem ofPattern?_eq_some_iff {ignoreCase : Bool} {pattern : Text} {e : Regex} :
    Regex.ofPattern? ignoreCase pattern = some e ↔ Denotes ignoreCase pattern e := by
  obtain ⟨enough, hpattern, htokens⟩ : ∃ enough, pattern.length ≤ enough ∧
      ∀ ts, tokens pattern = some ts → 5 * ts.length + 5 ≤ enough := by
    cases tokens pattern with
    | none => exact ⟨pattern.length, Nat.le_refl _, nofun⟩
    | some ts =>
      refine ⟨max pattern.length (5 * ts.length + 5), Nat.le_max_left _ _, ?_⟩
      rintro _ ⟨⟩
      exact Nat.le_max_right _ _
  have hiff : ∀ steps, enough ≤ steps →
      (ReadsIn steps ignoreCase pattern e ↔ Regex.ofPattern? ignoreCase pattern = some e) :=
    fun steps hle =>
      readsIn_iff (Nat.le_trans hpattern hle) fun ts hts => Nat.le_trans (htokens ts hts) hle
  constructor
  · exact fun h => ⟨enough, fun steps hle => (hiff steps hle).mpr h⟩
  · rintro ⟨least, h⟩
    have hboth := h (max least enough) (Nat.le_max_left _ _)
    exact (hiff _ (Nat.le_max_right _ _)).mp hboth

theorem isSome_ofPattern?_iff {ignoreCase : Bool} {pattern : Text} :
    (Regex.ofPattern? ignoreCase pattern).isSome ↔ IsWellFormed ignoreCase pattern := by
  rw [Option.isSome_iff_exists]
  exact exists_congr fun e => ofPattern?_eq_some_iff

instance (ignoreCase : Bool) (pattern : Text) : Decidable (IsWellFormed ignoreCase pattern) :=
  decidable_of_iff _ isSome_ofPattern?_iff

end Pattern

end Triage
