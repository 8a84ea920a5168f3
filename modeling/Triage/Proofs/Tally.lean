import Triage.Proofs.OrderIndependence

/-!
No finding is lost, and none is counted twice.

A draft keeps three accounts: the findings, the entries of the components, and the number of
findings in each entry. `Draft.Tallies` says that they agree with each other and with the events so
far; every event preserves that (`Draft.Tallies.apply`), so it holds after any row of events.
Finishing a draft sorts the findings, counts them by phase, and leaves the draft as it is.
-/

namespace Triage

/-! ## What an event adds -/

namespace ReportEvent

/-- The number of findings that an event adds to the entry of the component of that name. -/
def added (name : Text) (e : ReportEvent) : Nat := if e.touches name then e.findings.length else 0

/-- The event reports findings, be it none. -/
def Finds : ReportEvent → Prop
  | found .. => True
  | _ => False

theorem findings_of_not_finds {e : ReportEvent} (h : ¬e.Finds) : e.findings = [] := by
  cases e with
  | found => exact absurd trivial h
  | started | ended | status | note | scanned | fingerprint => rfl

theorem findings_of_no_component {e : ReportEvent} (h : e.component? = none) :
    e.findings = [] := by
  cases e with
  | note | scanned | fingerprint => rfl
  | started | ended | found | status => exact nomatch h

theorem findings_update {e : ReportEvent} {name : Text} (h : e.component? = some name)
    (c : Component) : (e.update c).findings = c.findings + e.findings.length := by
  cases e with
  | started | ended | found | status => rfl
  | note | scanned | fingerprint => exact nomatch h

theorem touches_iff {e : ReportEvent} {name : Text} :
    e.touches name ↔ e.component? = some name := by
  simp [touches]

end ReportEvent

/-! ## Changing one component -/

namespace Draft

/-- The number of findings that are counted for the component of that name. -/
def count (d : Draft) (name : Text) : Nat :=
  ((d.components.filter (·.name = name)).map Component.findings).sum

section

variable {f : Component → Component} (hf : ∀ c, (f c).name = c.name) (name : Text)

include hf

theorem names_change (cs : List Component) :
    (change name f cs).map Component.name =
      if name ∈ cs.map Component.name then cs.map Component.name
      else cs.map Component.name ++ [name] := by
  induction cs with
  | nil => simp [change, hf, Component.named]
  | cons c cs ih =>
    rw [change]
    by_cases hc : c.name = name
    · simp [hc, hf]
    · have hne : name ≠ c.name := Ne.symm hc
      simp only [beq_iff_eq, hc, if_false, List.map_cons, ih, List.mem_cons, hne, false_or]
      split <;> rfl

theorem nodup_names_change {cs : List Component} (h : (cs.map Component.name).Nodup) :
    ((change name f cs).map Component.name).Nodup := by
  rw [names_change hf]
  split
  · exact h
  · rename_i hnew
    exact List.concat_eq_append ▸ h.concat hnew

end

/-- If an entry counts some more findings, so do all entries together. -/
theorem sum_change {f : Component → Component} {k : Nat}
    (hf : ∀ c, (f c).findings = c.findings + k) (name : Text) (cs : List Component) :
    ((change name f cs).map Component.findings).sum = (cs.map Component.findings).sum + k := by
  induction cs with
  | nil => simp [change, hf, Component.named]
  | cons c cs ih =>
    rw [change]
    split
    · rw [List.map_cons, List.sum_cons, hf, List.map_cons, List.sum_cons]
      omega
    · rw [List.map_cons, List.sum_cons, ih, List.map_cons, List.sum_cons]
      omega

/-! ## What one event does to the accounts -/

variable {d : Draft} {e : ReportEvent}

theorem findings_apply (d : Draft) (e : ReportEvent) :
    (d.apply e).findings = d.findings ++ e.findings := by
  simpa [applyAll] using d.findings_applyAll [e]

theorem sum_findings_apply (d : Draft) (e : ReportEvent) :
    ((d.apply e).components.map Component.findings).sum =
      (d.components.map Component.findings).sum + e.findings.length := by
  rw [components_apply]
  cases h : e.component? with
  | none => rw [ReportEvent.findings_of_no_component h]; rfl
  | some name => exact sum_change (ReportEvent.findings_update h) name _

theorem count_apply (d : Draft) (e : ReportEvent) (name : Text) :
    (d.apply e).count name = d.count name + e.added name := by
  unfold count ReportEvent.added
  rw [components_apply]
  cases h : e.component? with
  | none => simp [ReportEvent.touches, h]
  | some other =>
    rw [filter_change other name e.update_name]
    by_cases hname : other = name
    · rw [if_pos hname, sum_change (ReportEvent.findings_update h),
        if_pos (ReportEvent.touches_iff.mpr (h.trans (congrArg some hname)))]
    · have hother : ¬e.touches name := by
        rw [ReportEvent.touches_iff, h, Option.some.injEq]
        exact hname
      rw [if_neg hname, if_neg hother]
      rfl

theorem mem_names_apply {name : Text} :
    name ∈ (d.apply e).components.map Component.name ↔
      name ∈ d.components.map Component.name ∨ e.touches name := by
  rw [components_apply, ReportEvent.touches_iff]
  cases h : e.component? with
  | none => simp
  | some other =>
    rw [names_change e.update_name, Option.some.injEq]
    split
    · rename_i hmem
      exact ⟨Or.inl, fun hname => hname.elim id fun heq => heq ▸ hmem⟩
    · rw [List.mem_append, List.mem_singleton, eq_comm (a := name)]

theorem nodup_names_apply (h : (d.components.map Component.name).Nodup) (e : ReportEvent) :
    ((d.apply e).components.map Component.name).Nodup := by
  rw [components_apply]
  cases e.component? with
  | none => exact h
  | some name => exact nodup_names_change e.update_name name h

/-- An event that reports no findings changes neither them nor any count. -/
theorem quiet_apply (h : ¬e.Finds) :
    (d.apply e).findings = d.findings ∧ ∀ name, (d.apply e).count name = d.count name := by
  have hnone := ReportEvent.findings_of_not_finds h
  refine ⟨?_, fun name => ?_⟩
  · rw [findings_apply, hnone, List.append_nil]
  · rw [count_apply, ReportEvent.added, hnone]
    simp

/-! ## The accounts after a row of events -/

/-- The accounts of a draft agree with each other and with the events that it was told. -/
structure Tallies (d : Draft) (events : List ReportEvent) : Prop where
  /-- The findings are those of the events, in their order. -/
  findings : d.findings = events.flatMap ReportEvent.findings
  /-- Every component has one entry. -/
  nodup : (d.components.map Component.name).Nodup
  names : ∀ name, name ∈ d.components.map Component.name ↔ ∃ e ∈ events, e.touches name
  counts : ∀ name, d.count name = (events.map (·.added name)).sum
  total : (d.components.map Component.findings).sum = d.findings.length

theorem tallies_empty : empty.Tallies [] where
  findings := rfl
  nodup := List.nodup_nil
  names := by simp [empty]
  counts _ := rfl
  total := rfl

theorem Tallies.apply {events : List ReportEvent} (h : d.Tallies events) (e : ReportEvent) :
    (d.apply e).Tallies (events ++ [e]) where
  findings := by rw [findings_apply, h.findings, List.flatMap_append, List.flatMap_singleton]
  nodup := nodup_names_apply h.nodup e
  names name := by
    rw [mem_names_apply, h.names]
    simp only [List.mem_append, List.mem_singleton, or_and_right, exists_or, exists_eq_left]
  counts name := by rw [count_apply, h.counts, List.map_append, List.sum_append]; simp
  total := by rw [sum_findings_apply, h.total, findings_apply, List.length_append]

theorem Tallies.applyAll {before : List ReportEvent} (h : d.Tallies before)
    (events : List ReportEvent) : (d.applyAll events).Tallies (before ++ events) := by
  induction events generalizing d before with
  | nil => rwa [List.append_nil]
  | cons e events ih =>
    rw [applyAll_cons, List.append_cons]
    exact ih (h.apply e)

theorem tallies_ofEvents (events : List ReportEvent) : (ofEvents events).Tallies events :=
  tallies_empty.applyAll events

/-- Entries of one name are one entry. -/
theorem filter_name_eq {cs : List Component} (h : (cs.map Component.name).Nodup) {c : Component}
    (hc : c ∈ cs) : cs.filter (·.name = c.name) = [c] := by
  induction cs with
  | nil => exact nomatch hc
  | cons b cs ih =>
    obtain ⟨hb, hcs⟩ := List.nodup_cons.mp h
    rcases List.mem_cons.mp hc with rfl | hc
    · have hrest : cs.filter (·.name = c.name) = [] := by
        refine List.filter_eq_nil_iff.mpr fun c' hc' hname => hb ?_
        exact List.mem_map.mpr ⟨c', hc', of_decide_eq_true hname⟩
      rw [List.filter_cons_of_pos (by simp), hrest]
    · have hne : b.name ≠ c.name := fun hname => hb (hname ▸ List.mem_map_of_mem hc)
      rw [List.filter_cons_of_neg (by simpa using hne), ih hcs hc]

/-- An entry counts what was added under its name. -/
theorem Tallies.findings_of_mem {events : List ReportEvent} (h : d.Tallies events) {c : Component}
    (hc : c ∈ d.components) : c.findings = (events.map (·.added c.name)).sum := by
  rw [← h.counts c.name, count, filter_name_eq h.nodup hc, List.map_singleton,
    List.sum_singleton]

end Draft

/-! ## The counts of a report -/

theorem Score.sum_countByPhase (findings : List Finding) :
    (countByPhase findings).sum = findings.length := by
  induction findings with
  | nil => rfl
  | cons f findings ih =>
    have hone : (Phase.all.map fun phase => if f.phase == phase then 1 else 0).sum = 1 := by
      cases f.phase <;> rfl
    have hsum : countByPhase (f :: findings) =
        Phase.all.map fun phase => findings.countP (fun f => f.phase == phase) +
          if f.phase == phase then 1 else 0 := by
      simp only [countByPhase, List.countP_cons]
    rw [hsum, List.sum_map_add, hone, List.length_cons, ← ih]
    rfl

/-! ## Finishing again and again -/

/-- What is done with a draft: it is told something, or a report is asked for. -/
inductive DraftCall where
  | event (e : ReportEvent)
  | finalize (item target : Text) (time : Int)

def DraftCall.event? : DraftCall → Option ReportEvent
  | event e => some e
  | finalize .. => none

namespace Draft

/-- The draft after a row of calls, and the reports that were asked for. -/
def serve (d : Draft) : List DraftCall → Draft × List (Except ScoreError Report)
  | [] => (d, [])
  | .event e :: rest => (d.apply e).serve rest
  | .finalize item target time :: rest =>
    let (after, reports) := d.serve rest
    (after, d.finalize item target time :: reports)

/-- Reports leave no trace in the draft. -/
theorem serve_fst (d : Draft) (calls : List DraftCall) :
    (d.serve calls).1 = d.applyAll (calls.filterMap DraftCall.event?) := by
  induction calls generalizing d with
  | nil => rfl
  | cons call calls ih =>
    cases call with
    | event e => exact ih (d.apply e)
    | finalize item target time => exact ih d

theorem serve_append (d : Draft) (calls calls' : List DraftCall) :
    (d.serve (calls ++ calls')).2 = (d.serve calls).2 ++ ((d.serve calls).1.serve calls').2 := by
  induction calls generalizing d with
  | nil => rfl
  | cons call calls ih =>
    cases call with
    | event e => exact ih (d.apply e)
    | finalize item target time => exact congrArg (List.cons _) (ih d)

/-- A report lists all findings and counts each of them once. -/
theorem perm_of_finalize {d : Draft} {item target : Text} {time : Int} {r : Report}
    (h : d.finalize item target time = .ok r) :
    r.findings.Perm d.findings ∧ r.counts.sum = d.findings.length := by
  obtain ⟨_, _, rfl⟩ := eq_of_finalize h
  have hperm := Finding.perm_sort d.findings
  exact ⟨hperm, (Score.sum_countByPhase _).trans hperm.length_eq⟩

/-- **No finding is lost or counted twice.** Whatever the order in which passes tell a draft of
their findings and reports are asked for, the draft has all findings in the order in which they
came, and counts each of them once, for the component under whose name it came. Other events change
neither findings nor counts. A report lists the findings so far, and asking for it changes
nothing. -/
theorem serve_tallies {rows : List (List DraftCall)} {order : List DraftCall}
    (h : Interleaved rows order) :
    let events := order.filterMap DraftCall.event?
    let d := (empty.serve order).1
    d.Tallies events ∧
    d.findings.Perm ((rows.flatten.filterMap DraftCall.event?).flatMap ReportEvent.findings) ∧
    (∀ c ∈ d.components, c.findings = (events.map (·.added c.name)).sum) ∧
    (∀ e : ReportEvent, ¬e.Finds →
      (d.apply e).findings = d.findings ∧ ∀ name, (d.apply e).count name = d.count name) ∧
    ∀ before item target time after, order = before ++ .finalize item target time :: after →
      let seen := (empty.serve before).1
      (empty.serve (before ++ [.finalize item target time])).1 = seen ∧
      (empty.serve order).2[(empty.serve before).2.length]? =
        some (seen.finalize item target time) ∧
      ∀ r, seen.finalize item target time = .ok r →
        r.findings.Perm seen.findings ∧ r.counts.sum = seen.findings.length := by
  intro events d
  have hd : d = ofEvents events := serve_fst empty order
  have htallies : d.Tallies events := hd ▸ tallies_ofEvents events
  refine ⟨htallies, ?_, fun c hc => htallies.findings_of_mem hc, fun e he => quiet_apply he, ?_⟩
  · rw [htallies.findings]
    exact (h.perm.filterMap _).flatMap_right _
  · rintro before item target time after rfl
    refine ⟨?_, ?_, fun r hr => perm_of_finalize hr⟩
    · simp only [serve_fst, List.filterMap_append]
      exact congrArg empty.applyAll (List.append_nil _)
    · rw [serve_append, List.getElem?_append_right (Nat.le_refl _), Nat.sub_self]
      rfl

def oneLine : Finding :=
  ⟨.codePatterns, "R".ascii, builtinSource, .low, "f".ascii, some 7, [], 1⟩

/-- A pass with two findings, and one with a finding in the same line; each asks for a report. -/
def bothAsk : List (List DraftCall) :=
  [[.event (.found "a".ascii [oneLine, oneLine]), .finalize [] [] 0, .event (.ended "a".ascii 1)],
   [.event (.found "b".ascii [oneLine]), .finalize [] [] 0]]

/-- The passes take turns. -/
def bothAskInTurn : List DraftCall :=
  [.event (.found "a".ascii [oneLine, oneLine]), .event (.found "b".ascii [oneLine]),
   .finalize [] [] 0, .finalize [] [] 0, .event (.ended "a".ascii 1)]

theorem bothAskInTurn_interleaved : Interleaved bothAsk bothAskInTurn :=
  @Interleaved.step _ [] [_] _ _ _ (@Interleaved.step _ [_] [] _ _ _
    (@Interleaved.step _ [] [_] _ _ _ (@Interleaved.step _ [_] [] _ _ _
      (@Interleaved.step _ [] [_] _ _ _ (.done (by simp))))))

theorem serve_tallies_bothAsk :
    Interleaved bothAsk bothAskInTurn ∧
      (empty.serve bothAskInTurn).1.Tallies (bothAskInTurn.filterMap DraftCall.event?) ∧
      (empty.serve bothAskInTurn).1.count "a".ascii = 2 := by
  have htallies := (serve_tallies bothAskInTurn_interleaved).1
  exact ⟨bothAskInTurn_interleaved, htallies, (htallies.counts _).trans (by decide)⟩

end Draft

end Triage
