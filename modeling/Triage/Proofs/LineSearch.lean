import Triage.Proofs.Regex.Search
import Triage.Rule.Search
import Triage.Rule.Table

/-!
Searching a line window by window.

The windows of a line are numbered; `searchLine_eq` says which ones are searched, and that the
search is over after the last. What a window accepts is accepted in the line and the other way
round, where nothing behind the window decides about it (`accepts_line`, `accepts_window`). So a hit
is a match of the line, unless the window accepts it only because it hides the next byte; and what
matches a piece of the line that is no longer than the overlap is not missed.
-/

namespace Triage

namespace LineRule

/-! ## The windows of a line -/

/-- The number of windows of a line of that length. -/
def windowCount (length : Nat) : Nat := (length - windowSize + windowStep - 1) / windowStep + 1

/-- The window of the line that begins at an offset. -/
def window (line : Text) (start : Nat) : Text := (line.drop start).take windowSize

/-- The line goes on after the window. -/
def goesOn (line : Text) (start : Nat) : Bool := start + windowSize < line.length

/-- The offset that the window shows, if it shows one. -/
def hitFrom (regex : Regex) (line : Text) (start : Nat) : Option Nat :=
  (regex.search (Place.ofLine line start).previous (goesOn line start) (window line start)).map
    (start + ·)

theorem goesOn_iff {line : Text} {k : Nat} :
    goesOn line (k * windowStep) ↔ k + 1 < windowCount line.length := by
  have hstep : windowStep = 15360 := rfl
  simp only [goesOn, windowCount, decide_eq_true_eq, hstep, windowSize]
  omega

/-- No window begins behind the end of the line. -/
theorem start_le {line : Text} {k : Nat} (hk : k < windowCount line.length) :
    k * windowStep ≤ line.length := by
  have hstep : windowStep = 15360 := rfl
  simp only [windowCount, hstep, windowSize] at hk ⊢
  omega

theorem searchFrom_eq (regex : Regex) (line : Text) {start : Nat} (hs : start ≤ line.length) :
    searchFrom regex (Place.ofLine line start).previous start (line.drop start) =
      match hitFrom regex line start with
      | some i => some i
      | none =>
        if goesOn line start then
          searchFrom regex (Place.ofLine line (start + windowStep)).previous (start + windowStep)
            (line.drop (start + windowStep))
        else none := by
  have hgoes : decide (windowSize < (line.drop start).length) = goesOn line start := by
    simp only [goesOn, List.length_drop, decide_eq_decide]
    omega
  have hprevious : (line.drop start)[windowStep - 1]? =
      (Place.ofLine line (start + windowStep)).previous := by
    have hpos : windowStep ≠ 0 := by decide
    simp only [Place.ofLine, Place.ofStretch, List.getElem?_drop]
    rw [if_neg (by omega)]
    congr 1
  -- The line alone tells whether it goes on, and which byte stands before the next window.
  rw [searchFrom, hgoes, hprevious, List.drop_drop]
  unfold hitFrom window
  cases regex.search (Place.ofLine line start).previous (goesOn line start)
      ((line.drop start).take windowSize) with
  | some i => rfl
  | none =>
    have hlt : windowSize < (line.drop start).length ↔ goesOn line start := by
      rw [← hgoes, decide_eq_true_eq]
    simp only [Option.map_none, hlt]
    by_cases h : goesOn line start <;> simp [h]

/-- The windows are searched one after the other, up to the one at the end of the line. -/
theorem searchLine_eq (regex : Regex) (line : Text) :
    searchLine regex line =
      (List.range (windowCount line.length)).findSome? fun k =>
        hitFrom regex line (k * windowStep) := by
  -- on the number of windows left
  have hfrom : ∀ left k, k + left + 1 = windowCount line.length →
      searchFrom regex (Place.ofLine line (k * windowStep)).previous (k * windowStep)
          (line.drop (k * windowStep)) =
        (List.range' k (left + 1)).findSome? fun k => hitFrom regex line (k * windowStep) := by
    intro left
    induction left with
    | zero =>
      intro k hk
      have hlast : ¬goesOn line (k * windowStep) := by
        rw [goesOn_iff]
        omega
      rw [searchFrom_eq regex line (start_le (by omega)), if_neg hlast]
      cases h : hitFrom regex line (k * windowStep) <;> simp [h]
    | succ left ih =>
      intro k hk
      have hgoes : goesOn line (k * windowStep) := goesOn_iff.mpr (by omega)
      have hnext : k * windowStep + windowStep = (k + 1) * windowStep := by
        rw [Nat.add_mul, Nat.one_mul]
      have hrange : List.range' k (left + 1 + 1) = k :: List.range' (k + 1) (left + 1) :=
        List.range'_succ
      rw [searchFrom_eq regex line (start_le (by omega)), if_pos hgoes, hnext,
        ih (k + 1) (by omega), hrange, List.findSome?_cons]
      cases hitFrom regex line (k * windowStep) with
      | some i => rfl
      | none => rfl
  have hpos : 0 < windowCount line.length := Nat.succ_pos _
  have hcount : 0 + (windowCount line.length - 1) + 1 = windowCount line.length := by omega
  have h := hfrom (windowCount line.length - 1) 0 hcount
  rw [List.range_eq_range', ← hcount, Nat.zero_add]
  simpa [searchLine, Place.ofLine, Place.ofStretch] using h

/-! ## What a window shows and what it hides -/

/-- The part of the line behind the window. -/
def behind (line : Text) (start : Nat) : Text := line.drop (start + windowSize)

/-- The place at an offset of the window. -/
def windowPlace (line : Text) (start i : Nat) : Place :=
  Place.ofStretch (Place.ofLine line start).previous (window line start) i

/-- How the search sees the window from an offset of it on. -/
def windowView (line : Text) (start i : Nat) : View :=
  ⟨(windowPlace line start i).previous.isSome, goesOn line start⟩

/-- Whether the expression is accepted up to the place `q` of the line is for bytes behind the
window to decide; `rest` is the line behind it. -/
def Undecided (regex : Regex) (rest : Text) (q : Place) : Prop :=
  rest ≠ [] ∧ ∀ n, regex.reach (startsWord rest) = some n → q.ahead.length < rest.length + n

variable {regex : Regex} {line : Text} {start i : Nat}

theorem reach_of_decided {rest : Text} {q : Place} (hq : ¬Undecided regex rest q)
    (hrest : rest ≠ []) :
    ∃ n, regex.reach (startsWord rest) = some n ∧ rest.length + n ≤ q.ahead.length := by
  by_contra hno
  exact hq ⟨hrest, fun n hn => Nat.lt_of_not_le fun hle => hno ⟨n, hn, hle⟩⟩

theorem goesOn_eq (line : Text) (start : Nat) :
    goesOn line start = !(behind line start).isEmpty := by
  rw [Bool.eq_iff_iff]
  simp [goesOn, behind]

theorem extend_windowPlace (hi : i ≤ (window line start).length) :
    (windowPlace line start i).extend (behind line start) = Place.ofLine line (start + i) := by
  have hahead : (window line start).drop i ++ behind line start = line.drop (start + i) := by
    rw [behind, ← List.drop_append_of_le_length hi, window, ← List.drop_drop, List.take_append_drop,
      List.drop_drop]
  have hprevious : (windowPlace line start i).previous =
      (Place.ofLine line (start + i)).previous := by
    simp only [windowPlace, Place.ofLine, Place.ofStretch]
    by_cases h : i = 0
    · rw [if_pos h, h, Nat.add_zero]
    · have hlt : i - 1 < windowSize := by
        simp only [window, List.length_take] at hi
        omega
      rw [if_neg h, if_neg (by omega), window, List.getElem?_take_of_lt hlt, List.getElem?_drop,
        Nat.add_sub_assoc (Nat.pos_of_ne_zero h)]
  rw [Place.mk.injEq]
  exact ⟨hprevious, hahead, rfl, rfl, rfl⟩

/-- What stands before the window matters to a lookahead only, and not past the first byte. -/
theorem accepts_windowView_iff {p q : Place} (hs : start ≤ line.length)
    (hi : i ≤ (window line start).length) (hpeek : regex.peeksBack = false ∨ 0 < start + i) :
    regex.Accepts (windowView line start i) p q ↔ regex.Accepts ⟨true, goesOn line start⟩ p q := by
  rcases hpeek with hpeek | hpos
  · exact ⟨fun h => h.continued hpeek, fun h => h.continued hpeek⟩
  · have hle : start + i ≤ line.length := by
      simp only [window, List.length_take, List.length_drop] at hi
      omega
    have hprevious : (windowPlace line start i).previous.isSome = true := by
      have hplace := congrArg Place.previous (extend_windowPlace hi)
      rw [show (windowPlace line start i).previous = _ from hplace]
      simp only [Place.ofLine, Place.ofStretch]
      rw [if_neg (by omega), List.getElem?_eq_getElem (by omega), Option.isSome_some]
    rw [windowView, hprevious]

/-- What the window decides about is accepted in the line, if it is accepted in the window. -/
theorem accepts_line {q : Place} (hs : start ≤ line.length) (hi : i ≤ (window line start).length)
    (hpeek : regex.peeksBack = false ∨ 0 < start + i)
    (h : regex.Accepts (windowView line start i) (windowPlace line start i) q)
    (hq : ¬Undecided regex (behind line start) (q.extend (behind line start))) :
    regex.Accepts View.line (Place.ofLine line (start + i)) (q.extend (behind line start)) := by
  rw [accepts_windowView_iff hs hi hpeek] at h
  rw [← extend_windowPlace hi]
  by_cases hrest : behind line start = []
  · have hlast : goesOn line start = false := by simp [goesOn_eq, hrest]
    rw [hlast] at h
    simpa only [hrest, Place.extend_nil, View.line] using h
  · have hmore : goesOn line start = true := by simp [goesOn_eq, hrest]
    rw [hmore] at h
    obtain ⟨n, hn, hlen⟩ := reach_of_decided hq hrest
    refine h.extend hrest hn ?_ (Place.sound_ofStretch _ _ _)
    simp only [Place.extend, List.length_append] at hlen
    omega

/-- What the window decides about is accepted in the window, if it is accepted in the line. -/
theorem accepts_window {q : Place} (hs : start ≤ line.length)
    (hi : i ≤ (window line start).length) (hpeek : regex.peeksBack = false ∨ 0 < start + i)
    (h : regex.Accepts View.line (Place.ofLine line (start + i)) q)
    (hq : ¬Undecided regex (behind line start) q) :
    ∃ p, q = p.extend (behind line start) ∧
      regex.Accepts (windowView line start i) (windowPlace line start i) p := by
  simp only [accepts_windowView_iff hs hi hpeek]
  rw [← extend_windowPlace hi] at h
  by_cases hrest : behind line start = []
  · have hlast : goesOn line start = false := by simp [goesOn_eq, hrest]
    rw [hlast, hrest]
    rw [hrest, Place.extend_nil] at h
    exact ⟨q, (Place.extend_nil q).symm, h⟩
  · have hmore : goesOn line start = true := by simp [goesOn_eq, hrest]
    rw [hmore]
    obtain ⟨n, hn, hlen⟩ := reach_of_decided hq hrest
    exact h.of_extend hrest hn hlen rfl (Place.sound_ofStretch _ _ _)

/-! ## Hits and matches -/

/-- The window accepts something from its offset `i` on, and nothing behind it decides about
that. -/
def ShowsMatch (regex : Regex) (line : Text) (start i : Nat) : Prop :=
  ∃ q, regex.Accepts (windowView line start i) (windowPlace line start i) q ∧
    ¬Undecided regex (behind line start) (q.extend (behind line start))

/-- The line accepts something from the offset `i` of the window on, and bytes behind the window
decide about that. -/
def MatchesBehind (regex : Regex) (line : Text) (start i : Nat) : Prop :=
  ∃ q, regex.Accepts View.line (Place.ofLine line (start + i)) q ∧
    Undecided regex (behind line start) q

theorem matchesAt_iff (hs : start ≤ line.length) (hi : i ≤ (window line start).length)
    (hpeek : regex.peeksBack = false ∨ 0 < start + i) :
    regex.MatchesAt line (start + i) ↔
      ShowsMatch regex line start i ∨ MatchesBehind regex line start i := by
  have hle : start + i ≤ line.length := by
    simp only [window, List.length_take, List.length_drop] at hi
    omega
  constructor
  · rintro ⟨n, -, q, hq, -⟩
    by_cases hdec : Undecided regex (behind line start) q
    · exact Or.inr ⟨q, hq, hdec⟩
    · obtain ⟨p, rfl, hp⟩ := accepts_window hs hi hpeek hq hdec
      exact Or.inl ⟨p, hp, hdec⟩
  · rintro (⟨q, hq, hdec⟩ | ⟨q, hq, -⟩)
    · exact ⟨_, hle, _, accepts_line hs hi hpeek hq hdec, rfl⟩
    · exact ⟨_, hle, _, hq, rfl⟩

theorem hitFrom_eq_some_iff {h : Nat} :
    hitFrom regex line start = some h ↔ ∃ i, start + i = h ∧
      regex.StopsAt (Place.ofLine line start).previous (goesOn line start) (window line start) i ∧
        ∀ j < i, ¬regex.StopsAt (Place.ofLine line start).previous (goesOn line start)
          (window line start) j := by
  simp only [hitFrom, Option.map_eq_some_iff, Regex.search_eq_some_iff]
  constructor
  · rintro ⟨i, hi, rfl⟩
    exact ⟨i, rfl, hi⟩
  · rintro ⟨i, rfl, hi⟩
    exact ⟨i, hi, rfl⟩

/-- A hit is an offset at which some window stops. It is a match of the line exactly if the window
shows one there by itself, or if bytes behind the window make one. -/
theorem hit_matches_iff {h : Nat} (hit : searchLine regex line = some h)
    (hpeek : regex.peeksBack = false ∨ 0 < h) :
    ∃ k < windowCount line.length, ∃ i, k * windowStep + i = h ∧
      regex.StopsAt (Place.ofLine line (k * windowStep)).previous (goesOn line (k * windowStep))
        (window line (k * windowStep)) i ∧
      (regex.MatchesAt line h ↔ ShowsMatch regex line (k * windowStep) i ∨
        MatchesBehind regex line (k * windowStep) i) := by
  rw [searchLine_eq] at hit
  obtain ⟨k, hk, hit⟩ := List.exists_of_findSome?_eq_some hit
  have hk : k < windowCount line.length := List.mem_range.mp hk
  obtain ⟨i, rfl, hi, -⟩ := hitFrom_eq_some_iff.mp hit
  exact ⟨k, hk, i, rfl, hi, matchesAt_iff (start_le hk) hi.1 hpeek⟩

theorem hit_matches_iff_byte : searchLine (.byte (.literal false 97)) "ba".ascii = some 1 ∧
    ∃ k < windowCount "ba".ascii.length, ∃ i, k * windowStep + i = 1 ∧
      Regex.StopsAt (.byte (.literal false 97))
        (Place.ofLine "ba".ascii (k * windowStep)).previous (goesOn "ba".ascii (k * windowStep))
        (window "ba".ascii (k * windowStep)) i ∧
      (Regex.MatchesAt (.byte (.literal false 97)) "ba".ascii 1 ↔
        ShowsMatch (.byte (.literal false 97)) "ba".ascii (k * windowStep) i ∨
          MatchesBehind (.byte (.literal false 97)) "ba".ascii (k * windowStep) i) := by
  have hit : searchLine (.byte (.literal false 97)) "ba".ascii = some 1 := by
    rw [searchLine, searchFrom]
    rfl
  exact ⟨hit, hit_matches_iff hit (Or.inl rfl)⟩

/-! ## A hit without a match -/

/-- The expression of a word between two word edges. -/
def wholeWord (word : Text) : Regex :=
  .seq (.wordEdge false)
    (word.foldr (fun b r => .seq (.byte (.literal false b)) r) (.seq (.wordEdge false) .empty))

/-- The built-in rule for the module `child_process`. -/
def childProcessRule : Rule :=
  RuleTable.inPhase .codePatterns .high .any "CODE-007" "child_process usage, command execution"
    (RuleTable.exactly "\\bchild_process\\b")

theorem childProcess_mem : ∃ rule ∈ RuleTable.phaseRules, rule.id = "CODE-007".ascii ∧
    rule.regex = wholeWord "child_process".ascii := by
  have hpattern : Regex.ofPattern? false "\\bchild_process\\b".ascii =
      some (wholeWord "child_process".ascii) := by
    decide +kernel
  have hrule : childProcessRule ∈ ruleTable := by decide +kernel
  have hline : childProcessRule.lineRule? =
      some ⟨"CODE-007".ascii, .codePatterns, .high, Phase.codePatterns.weight,
        "child_process usage, command execution".ascii, .any, builtinSource,
        wholeWord "child_process".ascii⟩ := by
    simp only [Rule.lineRule?, childProcessRule, RuleTable.inPhase, RuleTable.exactly, hpattern,
      Option.map_some]
  exact ⟨_, List.mem_filterMap.mpr ⟨_, List.mem_filter.mpr ⟨hrule, by decide⟩, hline⟩, rfl, rfl⟩

/-- A line of hyphens that ends in a text. -/
def hyphensBefore (n : Nat) (text : Text) : Text := List.replicate n 45 ++ text

theorem ofStretch_hyphensBefore {n : Nat} (hn : 0 < n) (text : Text) :
    Place.ofStretch none (hyphensBefore n text) n = ⟨some 45, text, 0, [], []⟩ := by
  have hlt : n - 1 < n := by omega
  simp [Place.ofStretch, hyphensBefore, List.getElem?_append, Nat.ne_of_gt hn, hlt]

/-- Between two hyphens there is no word edge. -/
theorem not_stopsAt_hyphensBefore {n j : Nat} (hj : j < n) (c : Bool) (word text : Text) :
    ¬(wholeWord word).StopsAt none c (hyphensBefore n text) j := by
  have hahead : ((hyphensBefore n text).drop j).head? = some 45 := by
    simp [hyphensBefore, List.getElem?_append, hj]
  have hprevious : (if j = 0 then none else (hyphensBefore n text)[j - 1]?).any
      ByteClass.word.mem = false := by
    split
    · rfl
    · have hbefore : (hyphensBefore n text)[j - 1]? = some 45 := by
        simp [hyphensBefore, List.getElem?_append, show j - 1 < n by omega]
      rw [hbefore]
      rfl
  rintro ⟨-, q, hq⟩
  cases hq with
  | seq ha hb =>
    cases ha with
    | wordEdge h =>
      simp only [Place.ofStretch, Place.atWordEdge] at h
      rw [hahead, hprevious] at h
      contradiction

theorem childProcess_window :
    ((wholeWord "child_process".ascii).matchAt ⟨true, true⟩ (some 45) "child_process".ascii).isSome
      = true :=
  rfl

theorem childProcess_line :
    ((wholeWord "child_process".ascii).matchAt View.line (some 45) "child_processx".ascii).isSome
      = false :=
  rfl

/-- The rule for `child_process` reports another word where a window ends behind these letters. -/
theorem hit_without_match : ∃ rule ∈ RuleTable.phaseRules, rule.id = "CODE-007".ascii ∧
    searchLine rule.regex (hyphensBefore 16371 "child_processx".ascii) = some 16371 ∧
    ¬rule.regex.MatchesAt (hyphensBefore 16371 "child_processx".ascii) 16371 := by
  obtain ⟨rule, hrule, hid, hregex⟩ := childProcess_mem
  refine ⟨rule, hrule, hid, ?_, ?_⟩
  · -- The last byte alone lies behind the first window, which so ends at a seeming word edge.
    have hlength : (hyphensBefore 16371 "child_processx".ascii).length = windowSize + 1 := by
      rw [hyphensBefore, List.length_append, List.length_replicate]
      rfl
    have hwindow : window (hyphensBefore 16371 "child_processx".ascii) 0 =
        hyphensBefore 16371 "child_process".ascii := by
      have hsize : windowSize = 16371 + 13 := rfl
      rw [window, List.drop_zero, hyphensBefore, hyphensBefore, hsize, List.take_append,
        List.take_of_length_le (by rw [List.length_replicate]; omega), List.length_replicate]
      rfl
    have hgoes : goesOn (hyphensBefore 16371 "child_processx".ascii) 0 = true := by
      simp [goesOn, hlength]
    have hhit : hitFrom rule.regex (hyphensBefore 16371 "child_processx".ascii) 0 = some 16371 := by
      refine hitFrom_eq_some_iff.mpr ⟨16371, Nat.zero_add _, ?_, fun j hj => ?_⟩
      · rw [hwindow, hgoes]
        refine ⟨by simp only [hyphensBefore, List.length_append, List.length_replicate]; omega, ?_⟩
        show ∃ q, Regex.Accepts ⟨(Place.ofStretch none _ _).previous.isSome, _⟩ _
          (Place.ofStretch none _ _) q
        rw [ofStretch_hyphensBefore (by omega), hregex]
        exact Regex.matchAt_isSome_iff.mp childProcess_window
      · rw [hwindow, hregex]
        exact not_stopsAt_hyphensBefore hj _ _ _
    have hwindows : List.range (windowCount (windowSize + 1)) = [0, 1] := by decide
    rw [searchLine_eq, hlength, hwindows, List.findSome?_cons, Nat.zero_mul, hhit]
  · rintro ⟨n, -, q, hq, -⟩
    rw [Place.ofLine, ofStretch_hyphensBefore (by omega), hregex] at hq
    have hsome := Regex.matchAt_isSome_iff.mpr ⟨q, hq⟩
    rw [childProcess_line] at hsome
    exact Bool.false_ne_true hsome

/-! ## The built-in rules -/

/-- The built-in rules whose expressions can end at a word edge. -/
def edgeRules : List Text :=
  ["CODE-007", "PERM-001", "PERM-002", "PERM-003", "PERM-005"].map String.ascii

/-- No built-in rule looks ahead, and the bytes behind a window decide about few of them. -/
theorem builtin_reach (group : RuleGroup) : ∀ rule ∈ RuleTable.lineRules group,
    rule.regex.looksAhead = false ∧ (rule.regex.reach true = some 0 ∨ rule.id ∈ edgeRules) := by
  have htable : ∀ r ∈ ruleTable, ∀ rule ∈ r.lineRule?,
      rule.regex.looksAhead = false ∧ (rule.regex.reach true = some 0 ∨ rule.id ∈ edgeRules) := by
    -- The parts of the table are evaluated one after the other, which takes far less memory.
    simp only [ruleTable, List.forall_mem_append]
    refine ⟨⟨⟨⟨⟨⟨?_, ?_⟩, ?_⟩, ?_⟩, ?_⟩, ?_⟩, ?_⟩ <;> decide +kernel
  intro rule hrule
  obtain ⟨r, hr, hline⟩ := List.mem_filterMap.mp hrule
  exact htable r (List.mem_filter.mp hr).1 rule hline

/-- A hit of a built-in rule that does not end at a word edge is a match of the line. -/
theorem builtin_hit_matches {group : RuleGroup} {rule : LineRule}
    (hrule : rule ∈ RuleTable.lineRules group) (hedge : rule.id ∉ edgeRules) {h : Nat}
    (hit : searchLine rule.regex line = some h) : rule.regex.MatchesAt line h := by
  obtain ⟨hlook, hreach⟩ := builtin_reach group rule hrule
  have hpeek := Regex.peeksBack_of_looksAhead hlook
  have hzero : ∀ word, rule.regex.reach word = some 0 := by
    intro word
    obtain ⟨n, hn, hword⟩ := Regex.reach_le word (hreach.resolve_right hedge)
    rw [hword, Nat.le_zero.mp hn]
  rw [searchLine_eq] at hit
  obtain ⟨k, hk, hit⟩ := List.exists_of_findSome?_eq_some hit
  obtain ⟨i, rfl, ⟨hi, q, hq⟩, -⟩ := hitFrom_eq_some_iff.mp hit
  have hstart := start_le (List.mem_range.mp hk)
  refine (matchesAt_iff hstart hi (Or.inl hpeek)).mpr (Or.inl ⟨q, hq, ?_⟩)
  rintro ⟨-, hno⟩
  have hlt := hno 0 (hzero _)
  simp only [Place.extend, List.length_append] at hlt
  omega

/-! ## Pieces that are not missed -/

/-- A piece that is not longer than the overlap lies in some window, together with what decides
about it. -/
theorem hitFrom_isSome_of_shortPiece (hr : regex.looksAhead = false) {i n : Nat}
    (h : regex.MatchesPiece line i n) (hn : n ≤ windowOverlap) :
    ∃ k < windowCount line.length, (hitFrom regex line (k * windowStep)).isSome := by
  obtain ⟨hi, q, hq, rfl⟩ := h
  have hlength : q.accepted + q.ahead.length = line.length - i := by
    simpa [Place.ofLine, Place.ofStretch] using hq.accepted_add_length
  have hsize : windowSize = windowStep + windowOverlap := rfl
  have hstep : windowStep = 15360 := rfl
  -- the last window that begins at the piece or before it
  obtain ⟨k, hk, hki, hnext⟩ : ∃ k < windowCount line.length, k * windowStep ≤ i ∧
      (k + 1 < windowCount line.length → i < k * windowStep + windowStep) := by
    have hpos : 0 < windowCount line.length := Nat.succ_pos _
    refine ⟨min (i / windowStep) (windowCount line.length - 1), by omega, ?_, ?_⟩
    · rw [hstep]
      omega
    · rw [hstep]
      omega
  obtain ⟨j, rfl⟩ := Nat.exists_eq_add_of_le hki
  have hlast : ¬k + 1 < windowCount line.length → line.length ≤ k * windowStep + windowSize := by
    rw [← goesOn_iff, goesOn, decide_eq_true_eq]
    exact Nat.le_of_not_lt
  have hj : j ≤ (window line (k * windowStep)).length := by
    rw [window, List.length_take, List.length_drop]
    omega
  -- The piece begins before the next window, so the window holds it and the byte after it, unless
  -- the line ends there.
  have hdec : ¬Undecided regex (behind line (k * windowStep)) q := by
    rintro ⟨hrest, hno⟩
    obtain ⟨m, hm, hreach⟩ := regex.reach_of_looksAhead hr
    have hlt := hno m hreach
    have hpos := List.length_pos_iff.mpr hrest
    rw [behind, List.length_drop] at hlt hpos
    omega
  obtain ⟨p, rfl, hp⟩ :=
    accepts_window (start_le hk) hj (Or.inl (Regex.peeksBack_of_looksAhead hr)) hq hdec
  refine ⟨k, hk, ?_⟩
  rw [hitFrom, Option.isSome_map]
  exact Regex.search_isSome ⟨hj, p, hp⟩

/-- A line of one window is searched as a whole. -/
theorem searchLine_eq_search (hlen : line.length ≤ windowSize) :
    searchLine regex line = regex.search none false line := by
  have hgoes : goesOn line 0 = false := by simpa [goesOn] using hlen
  have hwindow : window line 0 = line := List.take_of_length_le hlen
  have hprevious : (Place.ofLine line 0).previous = none := rfl
  have hcount : windowCount line.length = 1 := by
    have hstep : windowStep = 15360 := rfl
    rw [windowCount, hstep]
    omega
  have hhit : hitFrom regex line 0 = regex.search none false line := by
    simp only [hitFrom, hgoes, hwindow, hprevious, Nat.zero_add, Option.map_id']
  rw [searchLine_eq, hcount, List.range_one, List.findSome?_cons, Nat.zero_mul, hhit]
  cases regex.search none false line with
  | some i => rfl
  | none => rfl

/-- A search without lookahead goes through all windows, each after the one before, until one shows
a hit or the line ends. It misses no piece that is not longer than the overlap; in a line of one
window it finds the first match. No built-in rule looks ahead. -/
theorem searchLine_complete :
    (∀ group, ∀ rule ∈ RuleTable.lineRules group, rule.regex.looksAhead = false) ∧
    ∀ (regex : Regex) (line : Text), regex.looksAhead = false →
      (∀ i n, regex.MatchesPiece line i n → n ≤ windowOverlap → (searchLine regex line).isSome) ∧
      (line.length ≤ windowSize → searchLine regex line = regex.search none false line ∧
        ∀ h, searchLine regex line = some h ↔
          regex.MatchesAt line h ∧ ∀ j < h, ¬regex.MatchesAt line j) ∧
      (searchLine regex line = (List.range (windowCount line.length)).findSome? fun k =>
        hitFrom regex line (k * windowStep)) ∧
      ∀ k < windowCount line.length, k * windowStep ≤ line.length ∧
        (line.length ≤ k * windowStep + windowSize ↔ k + 1 = windowCount line.length) := by
  refine ⟨fun group rule hrule => (builtin_reach group rule hrule).1, fun regex line hr => ?_⟩
  have hpeek := Regex.peeksBack_of_looksAhead hr
  refine ⟨fun i n hpiece hn => ?_, fun hlen => ⟨searchLine_eq_search hlen, fun h => ?_⟩,
    searchLine_eq regex line, fun k hk => ⟨start_le hk, ?_⟩⟩
  · obtain ⟨k, hk, hhit⟩ := hitFrom_isSome_of_shortPiece hr hpiece hn
    rw [searchLine_eq, List.findSome?_isSome_iff]
    exact ⟨k, List.mem_range.mpr hk, hhit⟩
  · rw [searchLine_eq_search hlen]
    simp only [Regex.search_eq_some_iff, Regex.stopsAt_line_iff hpeek]
  · have hgoes := @goesOn_iff line k
    rw [goesOn, decide_eq_true_eq] at hgoes
    omega

theorem searchLine_complete_byte :
    (searchLine (.byte (.literal false 97)) "ba".ascii).isSome :=
  (searchLine_complete.2 _ _ rfl).1 1 1 ⟨by decide, _, .byte rfl rfl, rfl⟩ (by decide)

end LineRule

end Triage
