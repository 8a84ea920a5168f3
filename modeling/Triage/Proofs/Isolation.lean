import Mathlib.Data.List.Flatten
import Triage.Pass
import Triage.Proofs.Tally

/-!
A pass that fails fails alone.

The passes of a scan are run one after the other or at the same time (`Pass.IsRun`). If no two of
them write about one component (`Pass.Separate`), what a run leaves of a pass depends on that pass
only: not on the order of steps, not on the other passes, and not on whether those fail.
-/

namespace Triage

/-! ## What an event is about -/

namespace ReportEvent

/-- The component that an event writes about, be it in a note. -/
def about? : ReportEvent → Option Text
  | note component _ => some component
  | e => e.component?

/-- Whether an event writes about one of the components. -/
def within (names : List Text) (e : ReportEvent) : Bool := e.about?.any names.contains

theorem within_of_touches {names : List Text} {name : Text} (hname : name ∈ names)
    {e : ReportEvent} (h : e.touches name) : e.within names := by
  have habout : e.about? = e.component? := by
    cases e with
    | note => exact nomatch h
    | _ => rfl
  rw [within, habout, touches_iff.mp h]
  simpa using hname

theorem filter_touches_congr {names : List Text} {events events' : List ReportEvent}
    (h : events.filter (·.within names) = events'.filter (·.within names)) {name : Text}
    (hname : name ∈ names) : events.filter (·.touches name) = events'.filter (·.touches name) := by
  have htouches (es : List ReportEvent) :
      es.filter (·.touches name) = (es.filter (·.within names)).filter (·.touches name) := by
    rw [List.filter_filter]
    refine List.filter_congr fun e _ => ?_
    cases he : e.touches name with
    | false => rfl
    | true => rw [within_of_touches hname he, Bool.and_self]
  rw [htouches events, htouches events', h]

end ReportEvent

namespace Draft

/-- The notes on some components are those of the events about them. -/
theorem filter_notes (names : List Text) (events : List ReportEvent) :
    (events.filterMap ReportEvent.note?).filter (fun n => names.contains n.component) =
      (events.filter (·.within names)).filterMap ReportEvent.note? := by
  rw [List.filter_filterMap, List.filterMap_filter]
  congr 1
  funext e
  cases e with
  | note component message =>
    simp [ReportEvent.note?, ReportEvent.within, ReportEvent.about?, Option.filter]
  | _ => simp [ReportEvent.note?]

/-! ## The entry of a component -/

/-- The entries of a component; there is at most one. -/
def entries (d : Draft) (name : Text) : List Component := d.components.filter (·.name = name)

theorem entries_congr {name : Text} {events events' : List ReportEvent}
    (h : events.filter (·.touches name) = events'.filter (·.touches name)) :
    (ofEvents events).entries name = (ofEvents events').entries name := by
  rw [entries, entries, ofEvents, ofEvents, filter_components_applyAll, filter_components_applyAll,
    h]

theorem entries_ofEvents (events : List ReportEvent) (name : Text) :
    (ofEvents events).entries name = [] ∨
      ∃ c, c.name = name ∧ (ofEvents events).entries name = [c] := by
  cases h : (ofEvents events).entries name with
  | nil => exact Or.inl rfl
  | cons c rest =>
    obtain ⟨hmem, hname⟩ := List.mem_filter.mp (h ▸ List.mem_cons_self)
    have hone := filter_name_eq (tallies_ofEvents events).nodup hmem
    rw [of_decide_eq_true hname] at hone
    exact Or.inr ⟨c, of_decide_eq_true hname, h.symm.trans hone⟩

/-- Events that leave state and detail of a component as they are. -/
def Quiet (name : Text) (events : List ReportEvent) : Prop :=
  ∀ e ∈ events, e.touches name →
    ∀ c : Component, (e.update c).state = c.state ∧ (e.update c).detail = c.detail

/-- Quiet events change the one entry of a component, but not its state and detail. -/
theorem foldl_change_of_quiet {name : Text} : ∀ {events : List ReportEvent}, Quiet name events →
    ∀ {c : Component}, c.name = name →
      ∃ c', (events.filter (·.touches name)).foldl (fun cs e => change name e.update cs) [c] = [c'] ∧
        c'.state = c.state ∧ c'.detail = c.detail
  | [], _, c, _ => ⟨c, rfl, rfl, rfl⟩
  | e :: events, hquiet, c, hc => by
    have hrest : Quiet name events := fun e' he' => hquiet e' (.tail _ he')
    cases he : e.touches name with
    | false =>
      rw [List.filter_cons_of_neg (by simp [he])]
      exact foldl_change_of_quiet hrest hc
    | true =>
      obtain ⟨c', hc', hstate, hdetail⟩ :=
        foldl_change_of_quiet hrest ((e.update_name c).trans hc)
      obtain ⟨hs, hd⟩ := hquiet e List.mem_cons_self he c
      refine ⟨c', ?_, hstate.trans hs, hdetail.trans hd⟩
      rw [List.filter_cons_of_pos he, List.foldl_cons]
      simpa [change, hc] using hc'

/-- The state of a component is that of its last status. -/
theorem entries_of_status (before : List ReportEvent) (name : Text) (state : ComponentState)
    (detail : Text) {after : List ReportEvent} (hafter : Quiet name after) :
    ∃ c, (ofEvents (before ++ .status name state detail :: after)).entries name = [c] ∧
      c.state = state ∧ c.detail = detail := by
  let e : ReportEvent := .status name state detail
  have he : e.touches name := ReportEvent.touches_iff.mpr rfl
  have hsplit : (ofEvents (before ++ e :: after)).entries name =
      (after.filter (·.touches name)).foldl (fun cs e => change name e.update cs)
        (change name e.update ((ofEvents before).entries name)) := by
    rw [ofEvents, applyAll, List.foldl_append, entries]
    refine (filter_components_applyAll _ name (e :: after)).trans ?_
    rw [List.filter_cons_of_pos he, List.foldl_cons]
    rfl
  -- After the status there is one entry, whether or not there was one before.
  obtain ⟨c, hname, hc, hstate, hdetail⟩ : ∃ c : Component, c.name = name ∧
      change name e.update ((ofEvents before).entries name) = [c] ∧ c.state = state ∧
      c.detail = detail := by
    rcases entries_ofEvents before name with hnone | ⟨c, hname, hone⟩
    · rw [hnone]
      exact ⟨e.update (.named name), rfl, rfl, rfl, rfl⟩
    · rw [hone]
      exact ⟨e.update c, hname, by simp [change, hname], rfl, rfl⟩
  obtain ⟨c', hc', hstate', hdetail'⟩ := foldl_change_of_quiet hafter hname
  exact ⟨c', by rw [hsplit, hc, hc'], hstate'.trans hstate, hdetail'.trans hdetail⟩

end Draft

/-! ## Passes that are run together -/

theorem Config.runs_iff {c : Config} {name : Text} :
    c.runs name ↔ (c.enabled = [] ∨ name ∈ c.enabled) ∧ name ∉ c.disabled := by
  simp [runs]

/-- A step and the name of the pass that takes it. -/
structure Turn where
  pass : Text
  step : PassStep

/-- What the draft is told in the turns. -/
def Turn.events (turns : List Turn) : List ReportEvent := turns.filterMap fun t => t.step.event?

namespace Pass

/-- The steps for a pass, whether or not it is run. -/
def row (input : ScanInput) (p : Pass) : List PassStep :=
  if input.config.runs p.name then p.steps input else p.skipSteps

def turns (input : ScanInput) (p : Pass) : List Turn := (p.row input).map (Turn.mk p.name)

/-- The components that a pass writes about. -/
def components (input : ScanInput) (p : Pass) : List Text :=
  (PassStep.events (p.row input)).filterMap ReportEvent.about?

/-- Whether the passes that are run are run at the same time. -/
def atOnce (c : Config) (passes : List Pass) : Bool := c.parallel && 2 ≤ (active c passes).length

/-- No two passes write about one component. As each writes about itself, their names differ. -/
def Separate (passes : List Pass) (input : ScanInput) : Prop :=
  passes.Pairwise fun p q => List.Disjoint (p.components input) (q.components input)

section

variable (passes : List Pass) (input : ScanInput)

/-- The passes that the settings rule out are passed over one after the other. -/
def skipTurns : List Turn :=
  ((passes.filter fun p => !input.config.runs p.name).map (turns input)).flatten

/-- What each pass that is run will do. -/
def activeTurns : List (List Turn) := (active input.config passes).map (turns input)

/-- The turns of a run in their order. -/
def IsRun (order : List Turn) : Prop :=
  ∃ rest, order = skipTurns passes input ++ rest ∧
    if atOnce input.config passes then Interleaved (activeTurns passes input) rest
    else rest = (activeTurns passes input).flatten

/-- The turns of a run so far. -/
def IsBegun (taken : List Turn) : Prop :=
  taken <+: skipTurns passes input ∨
    ∃ part, taken = skipTurns passes input ++ part ∧
      if atOnce input.config passes then ∃ left, Begun (activeTurns passes input) part left
      else part <+: (activeTurns passes input).flatten

end

variable {passes : List Pass} {input : ScanInput} {order : List Turn}

/-- A run that has begun comes to its end. -/
theorem IsBegun.complete {taken : List Turn} (h : IsBegun passes input taken) :
    ∃ rest, IsRun passes input (taken ++ rest) := by
  rcases h with ⟨rest, hrest⟩ | ⟨part, rfl, hpart⟩
  · refine ⟨rest ++ (activeTurns passes input).flatten, (activeTurns passes input).flatten, ?_, ?_⟩
    · rw [← hrest, List.append_assoc]
    · split
      · exact .sequential _
      · rfl
  · split at hpart
    · rename_i honce
      obtain ⟨left, hbegun⟩ := hpart
      refine ⟨left.flatten, part ++ left.flatten, List.append_assoc .., ?_⟩
      rw [if_pos honce]
      exact hbegun.complete (.sequential left)
    · rename_i honce
      obtain ⟨rest, hrest⟩ := hpart
      refine ⟨rest, part ++ rest, List.append_assoc .., ?_⟩
      rw [if_neg honce, hrest]

theorem map_step_turns (p : Pass) : (p.turns input).map Turn.step = p.row input := by
  rw [turns, List.map_map]
  exact List.map_id _

theorem map_step_flatten (ps : List Pass) :
    ((ps.map (turns input)).flatten).map Turn.step = ps.flatMap (row input) := by
  rw [List.map_flatten, List.map_map, List.flatMap]
  congr 2
  funext p
  exact map_step_turns p

variable (passes input) in
/-- A scan runs the passes one after the other, which is one of the runs. -/
theorem exists_isRun :
    ∃ order, IsRun passes input order ∧ order.map Turn.step = allSteps passes input := by
  refine ⟨skipTurns passes input ++ (activeTurns passes input).flatten, ⟨_, rfl, ?_⟩, ?_⟩
  · split
    · exact .sequential _
    · rfl
  · rw [List.map_append, skipTurns, activeTurns, map_step_flatten, map_step_flatten, allSteps,
      inactiveSteps]
    congr 1
    · refine List.flatMap_congr fun p hp => ?_
      have hruns : input.config.runs p.name = false := by simpa using (List.mem_filter.mp hp).2
      rw [row, hruns]
      rfl
    · refine List.flatMap_congr fun p hp => ?_
      rw [row, if_pos (List.mem_filter.mp hp).2]

/-- In a run the turns of all passes are interleaved. -/
theorem IsRun.interleaved (h : IsRun passes input order) :
    Interleaved (passes.map (turns input)) order := by
  obtain ⟨rest, rfl, hrest⟩ := h
  have hactive : Interleaved (activeTurns passes input) rest := by
    split at hrest
    · exact hrest
    · exact hrest ▸ .sequential _
  refine (hactive.append_rows _).of_perm ?_
  rw [activeTurns, ← List.map_append]
  refine (List.perm_append_comm.trans ?_).map _
  exact List.filter_append_perm _ passes

/-! ## One pass in a run -/

variable {p : Pass}

theorem mem_components {e : ReportEvent} (he : e ∈ PassStep.events (p.row input)) {name : Text}
    (h : e.about? = some name) : name ∈ p.components input := List.mem_filterMap.mpr ⟨e, he, h⟩

theorem row_of_runs (h : input.config.runs p.name) : p.row input = p.steps input := if_pos h

theorem row_of_not_runs (h : ¬input.config.runs p.name) : p.row input = p.skipSteps := if_neg h

/-- A pass writes about itself, even if it is not run. -/
theorem name_mem_components (input : ScanInput) (p : Pass) : p.name ∈ p.components input := by
  by_cases h : input.config.runs p.name
  · have hstart : .started p.name input.now ∈ PassStep.events (p.row input) := by
      rw [row_of_runs h]
      exact List.mem_cons_self
    exact mem_components hstart rfl
  · have hskip : .status p.name .skipped "disabled by configuration".ascii ∈
        PassStep.events (p.row input) := by
      rw [row_of_not_runs h]
      exact List.mem_cons_self
    exact mem_components hskip rfl

theorem events_turns (p : Pass) : Turn.events (p.turns input) = PassStep.events (p.row input) := by
  rw [Turn.events, turns, List.filterMap_map]
  rfl

theorem IsRun.perm (h : IsRun passes input order) : order.Perm (passes.flatMap (turns input)) :=
  h.interleaved.perm

/-- The draft is told what the passes say, in some order. -/
theorem IsRun.events_perm (h : IsRun passes input order) :
    (Turn.events order).Perm (passes.flatMap fun p => PassStep.events (p.row input)) := by
  refine (h.perm.filterMap _).trans (List.Perm.of_eq ?_)
  rw [List.filterMap_flatMap]
  exact List.flatMap_congr fun p _ => events_turns p

/-- The turns of a pass and those of all others, which write about other components. -/
theorem IsRun.split (h : IsRun passes input order) (hsep : Separate passes input)
    (hp : p ∈ passes) :
    ∃ others : List Pass, Interleaved (p.turns input :: others.map (turns input)) order ∧
      ∀ q ∈ others, List.Disjoint (p.components input) (q.components input) := by
  obtain ⟨before, after, rfl⟩ := List.append_of_mem hp
  refine ⟨before ++ after, h.interleaved.of_perm (List.perm_middle.map _), ?_⟩
  have hmiddle := (List.perm_middle.pairwise_iff fun hpq => List.Disjoint.symm hpq).mp hsep
  exact (List.pairwise_cons.mp hmiddle).1

/-- The turns that bear the name of a pass are its own. -/
theorem IsRun.filter_pass (h : IsRun passes input order) (hsep : Separate passes input)
    (hp : p ∈ passes) : order.filter (·.pass = p.name) = p.turns input := by
  obtain ⟨others, hinter, hdisjoint⟩ := h.split hsep hp
  rw [hinter.filter_eq_head]
  · refine List.filter_eq_self.mpr fun t ht => ?_
    obtain ⟨step, -, rfl⟩ := List.mem_map.mp ht
    exact decide_eq_true rfl
  · intro row hrow t ht hname
    obtain ⟨q, hq, rfl⟩ := List.mem_map.mp hrow
    obtain ⟨step, -, rfl⟩ := List.mem_map.mp ht
    refine hdisjoint q hq (name_mem_components input p) ?_
    rw [← of_decide_eq_true hname]
    exact name_mem_components input q

/-- What the draft is told about the components of a pass, it is told by the pass. -/
theorem IsRun.filter_within (h : IsRun passes input order) (hsep : Separate passes input)
    (hp : p ∈ passes) : (Turn.events order).filter (·.within (p.components input)) =
      (PassStep.events (p.row input)).filter (·.within (p.components input)) := by
  obtain ⟨others, hinter, hdisjoint⟩ := h.split hsep hp
  have hevents := hinter.filterMap fun t => t.step.event?
  rw [List.map_cons] at hevents
  rw [Turn.events, hevents.filter_eq_head]
  · exact congrArg _ (events_turns p)
  · intro row hrow e he hwithin
    simp only [List.map_map, List.mem_map, Function.comp_apply] at hrow
    obtain ⟨q, hq, rfl⟩ := hrow
    obtain ⟨name, hname, hmem⟩ := Option.any_eq_true _ _ |>.mp hwithin
    refine hdisjoint q hq (List.contains_iff_mem.mp hmem) (mem_components ?_ hname)
    rw [← events_turns]
    exact he

/-- The draft after a run, if it was told of something before. -/
def draftOf (first : List ReportEvent) (order : List Turn) : Draft :=
  .ofEvents (first ++ Turn.events order)

theorem notes_draftOf (first : List ReportEvent) (order : List Turn) (names : List Text) :
    (draftOf first order).notes.filter (fun n => names.contains n.component) =
      (Draft.ofEvents first).notes.filter (fun n => names.contains n.component) ++
        ((Turn.events order).filter (·.within names)).filterMap ReportEvent.note? := by
  rw [draftOf, Draft.ofEvents, Draft.applyAll, List.foldl_append, ← Draft.filter_notes,
    ← List.filter_append]
  exact congrArg _ (Draft.notes_applyAll ..)

theorem findings_draftOf (first : List ReportEvent) (order : List Turn) :
    (draftOf first order).findings =
      (Draft.ofEvents first).findings ++ (Turn.events order).flatMap ReportEvent.findings := by
  rw [draftOf, Draft.ofEvents, Draft.applyAll, List.foldl_append]
  exact Draft.findings_applyAll ..

theorem IsRun.entries_eq (h : IsRun passes input order) (hsep : Separate passes input)
    (hp : p ∈ passes) (first : List ReportEvent) {name : Text} (hname : name ∈ p.components input) :
    (draftOf first order).entries name =
      (Draft.ofEvents (first ++ PassStep.events (p.row input))).entries name := by
  refine Draft.entries_congr ?_
  rw [List.filter_append, List.filter_append,
    ReportEvent.filter_touches_congr (h.filter_within hsep hp) hname]

/-- The notes of a pass are all on its components. -/
theorem filterMap_note_within (p : Pass) :
    ((PassStep.events (p.row input)).filter (·.within (p.components input))).filterMap
        ReportEvent.note? = (PassStep.events (p.row input)).filterMap ReportEvent.note? := by
  rw [← Draft.filter_notes, List.filter_eq_self]
  intro n hn
  obtain ⟨e, he, hnote⟩ := List.mem_filterMap.mp hn
  cases e with
  | note component message =>
    obtain rfl := Option.some.inj hnote
    exact List.contains_iff_mem.mpr (mem_components he rfl)
  | _ => exact nomatch hnote

/-! ## What a run leaves of a pass -/

/-- What a run leaves of a pass: it has taken its turns once, all that it has found is there, and
the way in which it ended is recorded. -/
structure Outcome (input : ScanInput) (first : List ReportEvent) (order : List Turn) (p : Pass) :
    Prop where
  turns : order.filter (·.pass = p.name) =
    (if (input.config.enabled = [] ∨ p.name ∈ input.config.enabled) ∧
        p.name ∉ input.config.disabled then p.steps input else p.skipSteps).map (Turn.mk p.name)
  skipped : ¬input.config.runs p.name → ∃ c, (draftOf first order).entries p.name = [c] ∧
    c.state = .skipped ∧ c.detail = "disabled by configuration".ascii
  findings : input.config.runs p.name →
    ((PassStep.events (p.run input).steps).flatMap ReportEvent.findings).Sublist
      (draftOf first order).findings
  failed : input.config.runs p.name → ∀ reason, (p.run input).failure = some reason →
    (∃ c, (draftOf first order).entries p.name = [c] ∧
      c.state = .degraded ∧ c.detail = failureText reason) ∧
    let own (notes : List Note) := notes.filter fun n => (p.components input).contains n.component
    own (draftOf first order).notes = own (Draft.ofEvents first).notes ++
      (PassStep.events (p.run input).steps).filterMap ReportEvent.note? ++
      [⟨p.name, failureNote reason⟩]

/-- Two runs leave the same of a pass. -/
structure Alike (input : ScanInput) (first : List ReportEvent) (order order' : List Turn)
    (p : Pass) : Prop where
  turns : order.filter (·.pass = p.name) = order'.filter (·.pass = p.name)
  entries : ∀ name ∈ p.components input,
    (draftOf first order).entries name = (draftOf first order').entries name
  notes : (draftOf first order).notes.filter (fun n => (p.components input).contains n.component) =
    (draftOf first order').notes.filter fun n => (p.components input).contains n.component

/-- The events of a pass that fails. -/
theorem events_of_failure (hruns : input.config.runs p.name) {reason : Text}
    (hfail : (p.run input).failure = some reason) :
    PassStep.events (p.row input) =
      .started p.name input.now :: PassStep.events (p.run input).steps ++
        [.status p.name .degraded (failureText reason), .note p.name (failureNote reason),
          .ended p.name input.now] := by
  rw [row_of_runs hruns, steps, hfail]
  simp [PassStep.events, failureSteps, PassStep.status, PassStep.note, PassStep.event?,
    List.filterMap_cons]

theorem IsRun.outcome (h : IsRun passes input order) (hsep : Separate passes input)
    (hp : p ∈ passes) (first : List ReportEvent) : p.Outcome input first order where
  turns := by
    rw [h.filter_pass hsep hp, Pass.turns, row]
    simp only [Config.runs_iff]
  skipped hruns := by
    rw [h.entries_eq hsep hp first (name_mem_components input p), row_of_not_runs hruns]
    exact Draft.entries_of_status first p.name _ _ fun e he => nomatch he
  findings hruns := by
    -- The turns of the pass are a part of all turns, and so are its findings.
    have hturns : (p.turns input).Sublist order := h.filter_pass hsep hp ▸ List.filter_sublist
    have hrow : (PassStep.events (p.row input)).Sublist (Turn.events order) := by
      rw [← events_turns]
      exact hturns.filterMap _
    have hevents : (PassStep.events (p.run input).steps).Sublist (Turn.events order) := by
      refine .trans (List.Sublist.filterMap _ ?_) hrow
      rw [row_of_runs hruns, steps, List.append_assoc]
      exact .cons _ (List.sublist_append_left ..)
    rw [findings_draftOf]
    exact (hevents.flatMap _).trans (List.sublist_append_right ..)
  failed hruns reason hfail := by
    refine ⟨?_, ?_⟩
    · rw [h.entries_eq hsep hp first (name_mem_components input p), events_of_failure hruns hfail,
        ← List.append_assoc]
      refine Draft.entries_of_status _ p.name _ _ fun e he htouches c => ?_
      simp only [List.mem_cons, List.not_mem_nil, or_false] at he
      rcases he with rfl | rfl
      · exact nomatch htouches
      · exact ⟨rfl, rfl⟩
    · intro own
      show (draftOf first order).notes.filter _ = _
      rw [notes_draftOf, h.filter_within hsep hp, filterMap_note_within,
        events_of_failure hruns hfail]
      simp [ReportEvent.note?, own, List.filterMap_cons]

theorem IsRun.alike (h : IsRun passes input order) (hsep : Separate passes input) (hp : p ∈ passes)
    {passes' : List Pass} {order' : List Turn} (h' : IsRun passes' input order')
    (hsep' : Separate passes' input) (hp' : p ∈ passes') (first : List ReportEvent) :
    p.Alike input first order order' where
  turns := (h.filter_pass hsep hp).trans (h'.filter_pass hsep' hp').symm
  entries _ hname :=
    (h.entries_eq hsep hp first hname).trans (h'.entries_eq hsep' hp' first hname).symm
  notes := by
    rw [notes_draftOf, notes_draftOf, h.filter_within hsep hp, h'.filter_within hsep' hp']

/-- **A pass that fails fails alone.** Passes that write about different components may be run one
after the other or at the same time, and any of them may fail at any point. A run that has begun
comes to its end, and one of the runs is what a scan does. Every pass takes its turns once, or is
recorded as skipped if the settings rule it out. A pass that fails is recorded as degraded, with
its failure as detail and in one note besides its own, and what it has found stays. In every other
run, with other passes or with passes that fail where they did not, a pass leaves the same turns,
entries and notes. -/
theorem run_isolates (hsep : Separate passes input) (first : List ReportEvent) :
    (∀ taken, IsBegun passes input taken → ∃ rest, IsRun passes input (taken ++ rest)) ∧
    (∃ order, IsRun passes input order ∧ order.map Turn.step = allSteps passes input) ∧
    ∀ order, IsRun passes input order →
      order.Perm (passes.flatMap (turns input)) ∧
      ∀ p ∈ passes, p.Outcome input first order ∧
        ∀ passes' order', Separate passes' input → IsRun passes' input order' → p ∈ passes' →
          p.Alike input first order order' := by
  refine ⟨fun _ => IsBegun.complete, exists_isRun passes input, fun order h => ⟨?_, ?_⟩⟩
  · exact h.perm
  · intro p hp
    exact ⟨h.outcome hsep hp first, fun passes' order' hsep' h' hp' =>
      h.alike hsep hp h' hsep' hp' first⟩

/-- A pass that fails after it has found something. -/
def brokenPass : Pass :=
  ⟨"broken".ascii, [], fun _ => ⟨[.found "broken".ascii [Draft.oneLine]], some "boom".ascii⟩⟩

def soundPass : Pass := ⟨"sound".ascii, [], fun _ => .ofSteps [.note "sound".ascii "done".ascii]⟩

/-- An input with nothing in it. -/
def noInput : ScanInput := ⟨⟨⟨.empty, []⟩, []⟩, .default, .none, [], [], [], 0⟩

theorem run_isolates_brokenPass :
    Separate [brokenPass, soundPass] noInput ∧ atOnce .default [brokenPass, soundPass] ∧
      ∃ order, IsRun [brokenPass, soundPass] noInput order ∧
        (∃ c, (draftOf [] order).entries "broken".ascii = [c] ∧
          c.state = .degraded ∧ c.detail = "boom".ascii) ∧
        Draft.oneLine ∈ (draftOf [] order).findings := by
  have hsep : Separate [brokenPass, soundPass] noInput := by
    have hother : ∀ name ∈ brokenPass.components noInput, name ∉ soundPass.components noInput := by
      decide
    exact List.pairwise_pair.mpr fun name h h' => hother name h h'
  obtain ⟨-, ⟨order, hrun, -⟩, hall⟩ := run_isolates hsep []
  have hbroken := ((hall order hrun).2 brokenPass List.mem_cons_self).1
  refine ⟨hsep, by decide, order, hrun, (hbroken.failed (by decide) _ rfl).1, ?_⟩
  exact (hbroken.findings (by decide)).subset List.mem_cons_self

end Pass

end Triage
