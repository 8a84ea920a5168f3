import Mathlib.Data.List.Perm.Subperm
import Triage.Proofs.Draft
import Triage.Proofs.Interleaving

/-!
Which report arises does not depend on which pass comes first.

Passes that keep out of each other's way (`Independent`) leave the same report in every
interleaving of their events, but for one case: line numbers are ordered as signed words, and a
finding without a line ties with one of the last line that a word can hold. Nothing else can tell
two interleavings apart (`Draft.finalize_eq`, `Draft.exists_finalize_ne`).
-/

namespace Triage

/-! ## Ties between findings -/

namespace Finding

/-- Where and by whom something was found. -/
def place (f : Finding) : Text × Option Nat × Text × Text := (f.file, f.line, f.rule, f.source)

/-- The last line that a word can count. -/
def lastLine : Nat := 2 ^ 64 - 1

/-- One of the findings has no line and the other the last one; otherwise their places agree. -/
def Clash (f g : Finding) : Prop :=
  f.file = g.file ∧ f.rule = g.rule ∧ f.source = g.source ∧
    (f.line = none ∧ g.line = some lastLine ∨ f.line = some lastLine ∧ g.line = none)

theorem lineRank_some {n : Nat} (h : n < 2 ^ 64) :
    lineRank (some n) = if n < 2 ^ 63 then (n : Int) else n - 2 ^ 64 := by
  have hmod : (n : Int) % ((2 ^ 64 : Nat) : Int) = n := Int.emod_eq_of_lt (by omega) (by omega)
  have hrank : lineRank (some n) = Int.bmod n (2 ^ 64) := rfl
  rw [hrank, Int.bmod_def, hmod]
  -- The upper half of the words is read as negative numbers.
  by_cases hn : n < 2 ^ 63
  · rw [if_pos hn, if_pos (by omega)]
  · rw [if_neg hn, if_neg (by omega)]
    rfl

/-- Among words, the order of lines confuses only the absence of a line with the last one. -/
theorem lineRank_eq_iff {l l' : Option Nat} (h : ∀ n ∈ l, n < 2 ^ 64) (h' : ∀ n ∈ l', n < 2 ^ 64) :
    lineRank l = lineRank l' ↔
      l = l' ∨ (l = none ∧ l' = some lastLine ∨ l = some lastLine ∧ l' = none) := by
  have hnone : lineRank none = -1 := rfl
  -- Both ranks are known for each pair of lines; only the last line has the rank of none.
  cases l with
  | none =>
    cases l' with
    | none => simp
    | some n =>
      rw [hnone, lineRank_some (h' n rfl)]
      have := h' n rfl
      simp only [lastLine, Option.some.injEq, true_and, reduceCtorEq, false_and, or_false, false_or]
      split <;> omega
  | some m =>
    have := h m rfl
    cases l' with
    | none =>
      rw [hnone, lineRank_some (h m rfl)]
      simp only [lastLine, Option.some.injEq, and_true, reduceCtorEq, and_false, false_or]
      split <;> omega
    | some n =>
      have := h' n rfl
      rw [lineRank_some (h m rfl), lineRank_some (h' n rfl)]
      simp only [Option.some.injEq, reduceCtorEq, false_and, and_false, or_false]
      split <;> split <;> omega

theorem sortKey_eq_iff {f g : Finding} (hf : ∀ n ∈ f.line, n < 2 ^ 64)
    (hg : ∀ n ∈ g.line, n < 2 ^ 64) : f.sortKey = g.sortKey ↔ f.place = g.place ∨ f.Clash g := by
  simp only [sortKey, place, Clash, Prod.mk.injEq, lineRank_eq_iff hf hg]
  grind

end Finding

/-! ## Independent passes -/

/-- No two passes touch one component, report findings of one place, or both set the fingerprint;
line numbers are words. -/
structure Independent (passes : List (List ReportEvent)) : Prop where
  components : Apart (fun e e' => ∃ name, e.touches name ∧ e'.touches name) passes
  findings : Apart (fun e e' => ∃ f ∈ e.findings, ∃ g ∈ e'.findings, f.place = g.place) passes
  fingerprint : Apart (fun e e' => e.fingerprint?.isSome ∧ e'.fingerprint?.isSome) passes
  lines : ∀ pass ∈ passes, ∀ e ∈ pass, ∀ f ∈ e.findings, ∀ n ∈ f.line, n < 2 ^ 64

/-- No two passes report findings that clash. -/
def ClashFree (passes : List (List ReportEvent)) : Prop :=
  Apart (fun e e' => ∃ f ∈ e.findings, ∃ g ∈ e'.findings, f.Clash g) passes

theorem Apart.mono {α : Type} {r r' : α → α → Prop} {rows : List (List α)} (h : Apart r rows)
    (hr : ∀ a b, r' a b → r a b) : Apart r' rows :=
  h.imp fun hrow a ha b hb hab => hrow a ha b hb (hr a b hab)

namespace Draft

variable {passes : List (List ReportEvent)} {order order' : List ReportEvent}

/-- The draft that events leave when nothing was reported before. -/
def ofEvents (events : List ReportEvent) : Draft := empty.applyAll events

theorem findings_ofEvents (events : List ReportEvent) :
    (ofEvents events).findings = events.flatMap ReportEvent.findings := by
  rw [ofEvents, findings_applyAll]
  rfl

/-- The findings of one key are those of the events that hold such findings. -/
theorem filter_findings_ofEvents (key : Text × Int × Text × Text) (events : List ReportEvent) :
    (ofEvents events).findings.filter (·.sortKey = key) =
      (events.filter fun e => e.findings.any (·.sortKey = key)).flatMap
        fun e => e.findings.filter (·.sortKey = key) := by
  rw [findings_ofEvents, List.filter_flatMap]
  induction events with
  | nil => rfl
  | cons e events ih =>
    rw [List.flatMap_cons, ih, List.filter_cons]
    split
    · rfl
    · rename_i h
      have hnone : e.findings.filter (·.sortKey = key) = [] := by
        rw [List.filter_eq_nil_iff]
        intro f hf hkey
        exact h (List.any_eq_true.mpr ⟨f, hf, hkey⟩)
      rw [hnone, List.nil_append]

theorem sort_findings_eq (hc : Apart (fun e e' => ∃ f ∈ e.findings, ∃ g ∈ e'.findings,
      f.sortKey = g.sortKey) passes)
    (h : Interleaved passes order) (h' : Interleaved passes order') :
    Finding.sort (ofEvents order).findings = Finding.sort (ofEvents order').findings := by
  refine (Finding.precedes_keyed.mergeSort_eq_iff _ _).mpr fun key => ?_
  rw [filter_findings_ofEvents, filter_findings_ofEvents, h.filter_eq h' (hc.mono ?_)]
  simp only [List.any_eq_true, decide_eq_true_eq]
  rintro e e' ⟨⟨f, hf, hkey⟩, g, hg, hkey'⟩
  exact ⟨f, hf, g, hg, hkey.trans hkey'.symm⟩

theorem sort_components_eq
    (hc : Apart (fun e e' => ∃ name, e.touches name ∧ e'.touches name) passes)
    (h : Interleaved passes order) (h' : Interleaved passes order') :
    sortComponents (ofEvents order).components = sortComponents (ofEvents order').components := by
  refine (Component.name_keyed.mergeSort_eq_iff _ _).mpr fun name => ?_
  rw [ofEvents, ofEvents, filter_components_applyAll, filter_components_applyAll,
    h.filter_eq h' (hc.mono fun _ _ hname => ⟨name, hname⟩)]

theorem sort_notes_eq (h : Interleaved passes order) (h' : Interleaved passes order') :
    sortNotes (ofEvents order).notes = sortNotes (ofEvents order').notes := by
  have hperm : (ofEvents order).notes.Perm (ofEvents order').notes := by
    rw [ofEvents, ofEvents, notes_applyAll, notes_applyAll]
    exact ((h.perm.trans h'.perm.symm).filterMap _).append_left _
  exact sortNotes_congr hperm

theorem filesScanned_eq (h : Interleaved passes order) (h' : Interleaved passes order') :
    (ofEvents order).filesScanned = (ofEvents order').filesScanned := by
  rw [ofEvents, ofEvents, filesScanned_applyAll, filesScanned_applyAll,
    ((h.perm.trans h'.perm.symm).map _).sum_eq]

theorem fingerprint_ofEvents (events : List ReportEvent) :
    (ofEvents events).fingerprint =
      (ofEvents (events.filter (·.fingerprint?.isSome))).fingerprint := by
  rw [ofEvents, ofEvents, fingerprint_applyAll, fingerprint_applyAll, List.filterMap_filter]
  congr 2
  funext e
  cases e <;> rfl

theorem fingerprint_eq
    (hc : Apart (fun e e' => e.fingerprint?.isSome ∧ e'.fingerprint?.isSome) passes)
    (h : Interleaved passes order) (h' : Interleaved passes order') :
    (ofEvents order).fingerprint = (ofEvents order').fingerprint := by
  rw [fingerprint_ofEvents order, fingerprint_ofEvents order', h.filter_eq h' hc]

/-! ## The report of an interleaving -/

/-- Without clashes the report is the same in every interleaving. -/
theorem finalize_eq (hi : Independent passes) (hc : ClashFree passes)
    (h : Interleaved passes order) (h' : Interleaved passes order') (item target : Text)
    (time : Int) :
    (ofEvents order).finalize item target time = (ofEvents order').finalize item target time := by
  have hkey : Apart (fun e e' => ∃ f ∈ e.findings, ∃ g ∈ e'.findings, f.sortKey = g.sortKey)
      passes := by
    refine (hi.findings.and (hc.and (List.pairwise_of_forall_mem_list
      fun _ hp _ hp' => And.intro hp hp'))).imp ?_
    rintro p p' ⟨hplace, hclash, hp, hp'⟩ e he e' he' ⟨f, hf, g, hg, hfg⟩
    rcases (Finding.sortKey_eq_iff (hi.lines p hp e he f hf) (hi.lines p' hp' e' he' g hg)).mp hfg
      with hfg | hfg
    · exact hplace e he e' he' ⟨f, hf, g, hg, hfg⟩
    · exact hclash e he e' he' ⟨f, hf, g, hg, hfg⟩
  exact finalize_congr (sort_findings_eq hkey h h') (sort_components_eq hi.components h h')
    (sort_notes_eq h h') (filesScanned_eq h h') (fingerprint_eq hi.fingerprint h h') ..

/-- Two rows that do not commute hold a common element, if neither is empty. -/
theorem mem_of_append_comm {α : Type} {s t : List α} (hs : s ≠ []) (ht : t ≠ [])
    (h : s ++ t = t ++ s) : ∃ a, a ∈ s ∧ a ∈ t := by
  obtain ⟨a, s, rfl⟩ := List.exists_cons_of_ne_nil hs
  obtain ⟨b, t, rfl⟩ := List.exists_cons_of_ne_nil ht
  obtain ⟨rfl, -⟩ := List.cons.inj h
  exact ⟨a, List.mem_cons_self, List.mem_cons_self⟩

/-- Of two passes whose findings clash, the one that comes first has its finding first. -/
theorem sort_findings_ne {p p' : List ReportEvent} (rest : List (List ReportEvent))
    (hplace : ∀ e ∈ p, ∀ e' ∈ p', ¬∃ f ∈ e.findings, ∃ g ∈ e'.findings, f.place = g.place)
    {e e' : ReportEvent} (he : e ∈ p) (he' : e' ∈ p') {f g : Finding} (hf : f ∈ e.findings)
    (hg : g ∈ e'.findings) (hfg : f.sortKey = g.sortKey) :
    Finding.sort (ofEvents (p :: p' :: rest).flatten).findings ≠
      Finding.sort (ofEvents (p' :: p :: rest).flatten).findings := by
  intro hsort
  have hkey := (Finding.precedes_keyed.mergeSort_eq_iff _ _).mp hsort g.sortKey
  simp only [findings_ofEvents, List.flatten_cons, List.flatMap_append, List.filter_append,
    ← List.append_assoc] at hkey
  -- Sorted alike, the findings of the one pass would be found by the other as well.
  obtain ⟨x, hx, hx'⟩ := mem_of_append_comm
    (List.ne_nil_of_mem (List.mem_filter.mpr
      ⟨List.mem_flatMap.mpr ⟨e, he, hf⟩, by simpa using hfg⟩))
    (List.ne_nil_of_mem (List.mem_filter.mpr
      ⟨List.mem_flatMap.mpr ⟨e', he', hg⟩, by simp⟩))
    (List.append_cancel_right hkey)
  obtain ⟨a, ha, hxa⟩ := List.mem_flatMap.mp (List.mem_filter.mp hx).1
  obtain ⟨b, hb, hxb⟩ := List.mem_flatMap.mp (List.mem_filter.mp hx').1
  exact hplace a ha b hb ⟨x, hxa, x, hxb, rfl⟩

/-- Findings that clash let two interleavings differ, unless no report arises. -/
theorem exists_finalize_ne (hi : Independent passes) (hc : ¬ClashFree passes) (item target : Text)
    (time : Int) :
    ∃ order order', Interleaved passes order ∧ Interleaved passes order' ∧
      ∀ r, (ofEvents order).finalize item target time = .ok r →
        (ofEvents order').finalize item target time ≠ .ok r := by
  unfold ClashFree Apart at hc
  rw [List.pairwise_iff_forall_sublist] at hc
  push Not at hc
  obtain ⟨p, p', hsub, e, he, e', he', f, hf, g, hg, hclash⟩ := hc
  obtain ⟨rest, hperm⟩ := hsub.exists_perm_append
  have hplace := List.pairwise_iff_forall_sublist.mp hi.findings hsub
  have hp : p ∈ passes := hsub.subset (by simp)
  have hp' : p' ∈ passes := hsub.subset (by simp)
  have hfg : f.sortKey = g.sortKey :=
    (Finding.sortKey_eq_iff (hi.lines p hp e he f hf) (hi.lines p' hp' e' he' g hg)).mpr
      (Or.inr hclash)
  -- The two passes that clash come first, and once in either order.
  refine ⟨(p :: p' :: rest).flatten, (p' :: p :: rest).flatten,
    (Interleaved.sequential _).of_perm hperm.symm,
    (Interleaved.sequential _).of_perm ((List.Perm.swap p p' rest).trans hperm.symm), ?_⟩
  intro r hr hr'
  exact sort_findings_ne rest hplace he he' hf hg hfg
    ((findings_of_finalize hr).symm.trans (findings_of_finalize hr'))

/-- **Which pass comes first does not matter**, unless findings clash: independent passes that run
one after the other or in any interleaving leave one report, or fail in one way. -/
theorem finalize_interleaved_iff (hi : Independent passes) (item target : Text) (time : Int) :
    Interleaved passes passes.flatten ∧
    ((∀ order order', Interleaved passes order → Interleaved passes order' →
        (ofEvents order).finalize item target time = (ofEvents order').finalize item target time) ↔
      ClashFree passes ∨
        ∃ e, ∀ order, Interleaved passes order →
          (ofEvents order).finalize item target time = .error e) := by
  refine ⟨.sequential passes, ?_, ?_⟩
  · intro hall
    by_contra hno
    obtain ⟨hc, hfail⟩ := not_or.mp hno
    obtain ⟨order, order', h, h', hne⟩ := exists_finalize_ne hi hc item target time
    cases hr : (ofEvents order).finalize item target time with
    | ok r => exact hne r hr (hall order order' h h' ▸ hr)
    | error e => exact hfail ⟨e, fun other ho => (hall other order ho h).trans hr⟩
  · rintro (hc | ⟨e, he⟩) order order' h h'
    · exact finalize_eq hi hc h h' item target time
    · rw [he order h, he order' h']

/-- Two passes with findings in one line each, which run into a file that neither can read. -/
def agreeing : List (List ReportEvent) :=
  let finding (rule : String) (weight : Int) : Finding :=
    ⟨.codePatterns, rule.ascii, builtinSource, .low, "f".ascii, some 7, [], weight⟩
  [[.started "b".ascii 1, .found "b".ascii [finding "R" 1, finding "R" 2],
    .note "walk".ascii "unreadable".ascii, .scanned 2],
   [.found "a".ascii [finding "Q" 3], .note "walk".ascii "unreadable".ascii,
    .status "a".ascii .degraded [], .fingerprint "00".ascii]]

theorem agreeing_independent : Independent agreeing where
  components := by
    simp [Apart, agreeing, ReportEvent.touches, ReportEvent.component?]
    decide
  findings := by
    simp [Apart, agreeing, ReportEvent.findings, Finding.place]
    decide
  fingerprint := by simp [Apart, agreeing, ReportEvent.fingerprint?]
  lines := by simp [agreeing, ReportEvent.findings]

theorem finalize_agreeing :
    Independent agreeing ∧
      ((∀ order order', Interleaved agreeing order → Interleaved agreeing order' →
          (ofEvents order).finalize [] [] 0 = (ofEvents order').finalize [] [] 0) ↔
        ClashFree agreeing ∨
          ∃ e, ∀ order, Interleaved agreeing order →
            (ofEvents order).finalize [] [] 0 = .error e) :=
  ⟨agreeing_independent, (finalize_interleaved_iff agreeing_independent [] [] 0).2⟩

/-- A pass that finds something in the last line of a file, and one that finds it in no line. -/
def clashing : List (List ReportEvent) :=
  let finding (line : Option Nat) : Finding :=
    ⟨.codePatterns, "R".ascii, builtinSource, .low, "f".ascii, line, [], 1⟩
  [[.found "a".ascii [finding (some Finding.lastLine)]], [.found "b".ascii [finding none]]]

theorem clashing_independent : Independent clashing where
  components := by
    simp [Apart, clashing, ReportEvent.touches, ReportEvent.component?]
    decide
  findings := by simp [Apart, clashing, ReportEvent.findings, Finding.place]
  fingerprint := by simp [Apart, clashing, ReportEvent.fingerprint?]
  lines := by simp [clashing, ReportEvent.findings, Finding.lastLine]

/-- Findings that tie are listed as they come. -/
theorem sort_clashing :
    Finding.sort (ofEvents clashing.flatten).findings = (ofEvents clashing.flatten).findings ∧
      Finding.sort (ofEvents clashing.reverse.flatten).findings =
        (ofEvents clashing.reverse.flatten).findings :=
  ⟨List.mergeSort_of_pairwise (by decide), List.mergeSort_of_pairwise (by decide)⟩

/-- Two passes that clash: the report lists first what was found first. -/
theorem clashing_order_matters :
    Independent clashing ∧ Interleaved clashing clashing.flatten ∧
      Interleaved clashing clashing.reverse.flatten ∧
      (ofEvents clashing.flatten).finalize [] [] 0 ≠
        (ofEvents clashing.reverse.flatten).finalize [] [] 0 := by
  refine ⟨clashing_independent, .sequential _,
    (Interleaved.sequential _).of_perm (List.reverse_perm _), ?_⟩
  intro h
  obtain ⟨hsort, hsort'⟩ := sort_clashing
  obtain ⟨r, hr⟩ : ∃ r, (ofEvents clashing.flatten).finalize [] [] 0 = .ok r := by
    unfold finalize
    rw [hsort]
    exact ⟨_, rfl⟩
  have hne : (ofEvents clashing.flatten).findings ≠
      (ofEvents clashing.reverse.flatten).findings := by
    decide +kernel
  apply hne
  rw [← hsort, ← hsort', ← findings_of_finalize hr, ← findings_of_finalize (h ▸ hr)]

end Draft

end Triage
