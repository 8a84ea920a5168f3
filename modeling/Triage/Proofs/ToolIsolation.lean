import Mathlib.Data.List.Forall2
import Triage.Pass.External
import Triage.Proofs.Isolation
import Triage.Tool.Adapter

/-!
One external tool cannot disturb another.

The tools are run one after the other and tell one draft what they have found. A tool writes about
its own component only (`ExternalPass.about_toolEvents`), so drafts that differ in that component
alone go on to do so, whatever they are told (`Draft.forall₂_components_applyAll`); of what tools
do together, only the detail of the pass depends on all of them.
-/

namespace Triage

/-! ## What a tool does in a scan -/

namespace Tool

variable (input : ScanInput) (t : Tool)

/-- What comes of running the tool. -/
def outcome : ToolOutcome := t.run input.machine input.root input.config.scannerTimeout

/-- The tool is there, and running it is not in vain. -/
def succeeds : Bool := t.available input.machine && (t.outcome input).state != .degraded

/-- What a scan has from the tool. -/
def found : List Finding := if t.available input.machine then (t.outcome input).findings else []

theorem component_ne_external : t.component ≠ ExternalPass.name := by
  intro h
  have hlength := congrArg List.length h
  rw [component, List.length_append] at hlength
  have hlong : "external:".ascii.length = ExternalPass.name.length + 1 := rfl
  omega

end Tool

namespace ExternalPass

variable (input : ScanInput) (t : Tool) (tools : List Tool)

def toolEvents : List ReportEvent := PassStep.events (toolSteps input t).1

theorem toolSteps_snd : (toolSteps input t).2 = t.succeeds input := by
  unfold toolSteps Tool.succeeds
  by_cases h : t.available input.machine
  · simp only [h, Bool.not_true, Bool.false_eq_true, if_false, Bool.true_and]
    rfl
  · simp [h]

theorem toolEvents_eq :
    toolEvents input t =
      if t.available input.machine then
        [.started t.component input.now, .ended t.component input.now] ++
        (if (t.outcome input).state = .degraded then
          [.note t.component (t.outcome input).detail]
        else []) ++
        [.found t.component (t.outcome input).findings,
          .status t.component (t.outcome input).state (t.outcome input).detail]
      else [.status t.component .notInstalled (t.name ++ " not found in PATH".ascii)] := by
  unfold toolEvents toolSteps Tool.outcome
  by_cases h : t.available input.machine
  · by_cases hstate :
        (t.run input.machine input.root input.config.scannerTimeout).state = .degraded
    · simp [h, hstate, PassStep.events, PassStep.event?, PassStep.note, PassStep.found,
        PassStep.status, List.filterMap_cons]
    · simp [h, hstate, PassStep.events, PassStep.event?, PassStep.found, PassStep.status]
  · simp [h, PassStep.events, PassStep.event?, PassStep.status, List.filterMap_cons]

/-- A tool writes about itself, and it always writes something. -/
theorem about_toolEvents {e : ReportEvent} (he : e ∈ toolEvents input t) :
    e.about? = some t.component ∧ e.files = 0 ∧ e.fingerprint? = none := by
  rw [toolEvents_eq] at he
  split at he
  · split at he <;>
      simp only [List.cons_append, List.nil_append, List.mem_cons, List.not_mem_nil, or_false] at he
    · rcases he with rfl | rfl | rfl | rfl | rfl <;> exact ⟨rfl, rfl, rfl⟩
    · rcases he with rfl | rfl | rfl | rfl <;> exact ⟨rfl, rfl, rfl⟩
  · rw [List.mem_singleton.mp he]
    exact ⟨rfl, rfl, rfl⟩

theorem exists_touches_toolEvents : ∃ e ∈ toolEvents input t, e.touches t.component := by
  have htouches (e : ReportEvent) (h : e.component? = some t.component) : e.touches t.component :=
    ReportEvent.touches_iff.mpr h
  rw [toolEvents_eq]
  split
  · exact ⟨_, List.mem_append_right _ List.mem_cons_self, htouches _ rfl⟩
  · exact ⟨_, List.mem_cons_self, htouches _ rfl⟩

theorem findings_toolEvents :
    (toolEvents input t).flatMap ReportEvent.findings = t.found input := by
  rw [toolEvents_eq, Tool.found]
  split
  · split <;> simp [ReportEvent.findings]
  · rfl

/-! ## What the pass does -/

/-- The state and the detail with which the pass ends: how many of the tools could be used. -/
def conclusion : ComponentState × Text :=
  if tools = [] then (.skipped, "no tools configured".ascii)
  else (.ran, Text.ofNat (tools.countP (·.succeeds input)) ++ " of ".ascii ++
    Text.ofNat tools.length ++ " tools ran".ascii)

theorem events_steps : PassStep.events (steps input tools) =
    tools.flatMap (toolEvents input) ++
      [.status name (conclusion input tools).1 (conclusion input tools).2] := by
  by_cases h : tools = []
  · subst h
    rfl
  · have hcount : (tools.map (toolSteps input)).countP Prod.snd =
        tools.countP (·.succeeds input) := by
      rw [List.countP_map]
      congr 1
      funext t
      exact toolSteps_snd input t
    have hempty : tools.isEmpty = false := by simpa using h
    rw [steps, hempty, if_neg Bool.false_ne_true, conclusion, if_neg h]
    simp only [hcount]
    rw [PassStep.events, List.filterMap_append, List.filterMap_flatMap, List.flatMap_map]
    rfl

end ExternalPass

/-! ## Drafts that differ in one component -/

namespace Component

/-- The entries are the same, unless they are those of one component. -/
structure SameBut (name : Text) (c c' : Component) : Prop where
  name_eq : c'.name = c.name
  eq : c.name ≠ name → c' = c

/-- The entries are the same but for those of one tool and the detail of the pass. -/
structure SameButTool (t : Tool) (c c' : Component) : Prop where
  name_eq : c'.name = c.name
  pass : c.name = ExternalPass.name → c' = { c with detail := c'.detail }
  eq : c.name ≠ t.component → c.name ≠ ExternalPass.name → c' = c

/-- The pass has an entry of its own. -/
theorem SameBut.sameButTool {t : Tool} {c c' : Component} (h : c.SameBut t.component c') :
    c.SameButTool t c' where
  name_eq := h.name_eq
  pass hpass := by rw [h.eq fun hc => t.component_ne_external (hc.symm.trans hpass)]
  eq hne _ := h.eq hne

end Component

/-- An event about a component changes its entry or none. -/
theorem ReportEvent.component?_of_about? {e : ReportEvent} {name : Text}
    (h : e.about? = some name) : e.component? = none ∨ e.component? = some name := by
  cases e with
  | note => exact Or.inl rfl
  | _ => exact Or.inr h

namespace Draft

variable {name : Text} {events : List ReportEvent}

/-- Rows of entries stay related if the entries of one component are changed in related ways. -/
theorem forall₂_change {r r' : Component → Component → Prop} {f f' : Component → Component}
    {cs cs' : List Component} (hname : ∀ {c c'}, r c c' → c'.name = c.name)
    (hr : ∀ {c c'}, r c c' → r' c c') (hf : ∀ {c c'}, r c c' → c.name = name → r' (f c) (f' c'))
    (hnew : r' (f (.named name)) (f' (.named name))) (h : List.Forall₂ r cs cs') :
    List.Forall₂ r' (change name f cs) (change name f' cs') := by
  induction h with
  | nil => exact .cons hnew .nil
  | @cons c c' cs cs' hc hcs ih =>
    by_cases heq : c.name = name
    · have heq' : c'.name = name := (hname hc).trans heq
      simp only [change, heq, heq', beq_self_eq_true, if_true]
      exact .cons (hf hc heq) (hcs.imp fun _ _ => hr)
    · have heq' : c'.name ≠ name := fun h => heq ((hname hc).symm.trans h)
      simp only [change, beq_eq_false_iff_ne.mpr heq, beq_eq_false_iff_ne.mpr heq',
        Bool.false_eq_true, if_false]
      exact .cons (hr hc) ih

/-- Changing a component twice is changing it once. -/
theorem change_change {f g : Component → Component} (hg : ∀ c, (g c).name = c.name)
    (cs : List Component) : change name f (change name g cs) = change name (f ∘ g) cs := by
  induction cs with
  | nil => simp [change, hg, Component.named]
  | cons c cs ih =>
    by_cases hc : c.name = name
    · simp [change, hc, hg]
    · simp [change, hc, ih]

theorem components_applyAll_of_untouched (d : Draft)
    (h : ∀ e ∈ events, e.component? = none) : (d.applyAll events).components = d.components := by
  induction events generalizing d with
  | nil => rfl
  | cons e events ih =>
    rw [applyAll_cons, ih _ fun e' he' => h e' (.tail _ he'), components_apply,
      h e List.mem_cons_self]

/-- Events about one component change its entry, and make one if an event touches it. -/
theorem exists_change (habout : ∀ e ∈ events, e.about? = some name)
    (htouches : ∃ e ∈ events, e.touches name) :
    ∃ f : Component → Component, (∀ c, (f c).name = c.name) ∧
      ∀ d : Draft, (d.applyAll events).components = change name f d.components := by
  induction events with
  | nil =>
    obtain ⟨e, he, -⟩ := htouches
    exact nomatch he
  | cons e events ih =>
    have hrest : ∀ e' ∈ events, e'.about? = some name := fun e' he' => habout e' (.tail _ he')
    have hfirst := ReportEvent.component?_of_about? (habout e List.mem_cons_self)
    by_cases hlater : ∃ e' ∈ events, e'.touches name
    · obtain ⟨f, hf, hchange⟩ := ih hrest hlater
      rcases hfirst with hnone | hsome
      · refine ⟨f, hf, fun d => ?_⟩
        rw [applyAll_cons, hchange, components_apply, hnone]
      · refine ⟨f ∘ e.update, fun c => (hf _).trans (e.update_name c), fun d => ?_⟩
        rw [applyAll_cons, hchange, components_apply, hsome]
        exact change_change e.update_name _
    · -- Only the first event touches the component.
      have huntouched : ∀ e' ∈ events, e'.component? = none := fun e' he' =>
        (ReportEvent.component?_of_about? (hrest e' he')).resolve_right fun h =>
          hlater ⟨e', he', ReportEvent.touches_iff.mpr h⟩
      have hsome : e.component? = some name := by
        obtain ⟨e', he', htouch⟩ := htouches
        rcases List.mem_cons.mp he' with rfl | he'
        · exact ReportEvent.touches_iff.mp htouch
        · exact absurd ⟨e', he', htouch⟩ hlater
      refine ⟨e.update, e.update_name, fun d => ?_⟩
      rw [applyAll_cons, components_applyAll_of_untouched _ huntouched, components_apply, hsome]

/-- Drafts with the same entries but for one component are told the same. -/
theorem forall₂_components_applyAll {d d' : Draft}
    (h : List.Forall₂ (Component.SameBut name) d.components d'.components)
    (events : List ReportEvent) :
    List.Forall₂ (Component.SameBut name) (d.applyAll events).components
      (d'.applyAll events).components := by
  induction events generalizing d d' with
  | nil => exact h
  | cons e events ih =>
    refine ih ?_
    rw [components_apply, components_apply]
    cases e.component? with
    | none => exact h
    | some other =>
      refine forall₂_change (fun hc => hc.name_eq) id (fun {c c'} hc _ => ?_) ⟨rfl, fun _ => rfl⟩ h
      refine ⟨by rw [e.update_name, e.update_name, hc.name_eq], fun hne => ?_⟩
      rw [e.update_name] at hne
      rw [hc.eq hne]

end Draft

/-! ## Running the tools -/

/-- The drafts differ at most in what two tools of one name have told them, and in how many tools
could be used. -/
structure DiffersInTool (input : ScanInput) (t t' : Tool) (d d' : Draft) : Prop where
  components : List.Forall₂ (Component.SameButTool t) d.components d'.components
  findings : ∃ before after, d.findings = before ++ t.found input ++ after ∧
    d'.findings = before ++ t'.found input ++ after
  notes : ∃ before own own' after, d.notes = before ++ own ++ after ∧
    d'.notes = before ++ own' ++ after ∧ ∀ n ∈ own ++ own', n.component = t.component
  filesScanned : d'.filesScanned = d.filesScanned
  fingerprint : d'.fingerprint = d.fingerprint

namespace ExternalPass

variable (input : ScanInput) (first : List ReportEvent) (tools : List Tool)

/-- The draft after the tools were run, if it was told of something before. -/
def draft : Draft := .ofEvents (first ++ PassStep.events (steps input tools))

theorem draft_eq : draft input first tools =
    ((Draft.ofEvents first).applyAll (tools.flatMap (toolEvents input))).apply
      (.status name (conclusion input tools).1 (conclusion input tools).2) := by
  rw [draft, Draft.ofEvents, Draft.applyAll, List.foldl_append, events_steps, List.foldl_append]
  rfl

/-- The findings of the tools come after all others, in the order of the tools. -/
theorem findings_draft : (draft input first tools).findings =
    (Draft.ofEvents first).findings ++ tools.flatMap (·.found input) := by
  rw [draft_eq, Draft.apply, Draft.withComponent, Draft.findings_applyAll, List.flatMap_assoc]
  simp only [findings_toolEvents]

theorem notes_draft : (draft input first tools).notes = (Draft.ofEvents first).notes ++
    tools.flatMap fun t => (toolEvents input t).filterMap ReportEvent.note? := by
  rw [draft_eq, Draft.apply, Draft.withComponent, Draft.notes_applyAll, List.filterMap_flatMap]

theorem component_of_mem_notes {t : Tool} {n : Note}
    (h : n ∈ (toolEvents input t).filterMap ReportEvent.note?) : n.component = t.component := by
  obtain ⟨e, he, hnote⟩ := List.mem_filterMap.mp h
  have habout := (about_toolEvents input t he).1
  cases e with
  | note component message =>
    obtain rfl := Option.some.inj hnote
    exact Option.some.inj habout
  | _ => exact nomatch hnote

/-- The tools neither count files nor set the fingerprint. -/
theorem filesScanned_draft :
    (draft input first tools).filesScanned = (Draft.ofEvents first).filesScanned := by
  rw [draft_eq, Draft.apply, Draft.withComponent, Draft.filesScanned_applyAll,
    List.sum_eq_zero, add_zero]
  intro files hfiles
  obtain ⟨e, he, rfl⟩ := List.mem_map.mp hfiles
  obtain ⟨t, -, he⟩ := List.mem_flatMap.mp he
  exact (about_toolEvents input t he).2.1

theorem fingerprint_draft :
    (draft input first tools).fingerprint = (Draft.ofEvents first).fingerprint := by
  have hnone : (tools.flatMap (toolEvents input)).filterMap ReportEvent.fingerprint? = [] := by
    refine List.filterMap_eq_nil_iff.mpr fun e he => ?_
    obtain ⟨t, -, he⟩ := List.mem_flatMap.mp he
    exact (about_toolEvents input t he).2.2
  rw [draft_eq, Draft.apply, Draft.withComponent, Draft.fingerprint_applyAll, hnone]
  rfl

variable {t t' : Tool}

/-- After one of two tools of one name was run, the entries agree but for its own. -/
theorem forall₂_toolEvents (hname : t'.name = t.name) (d : Draft) :
    List.Forall₂ (Component.SameBut t.component) (d.applyAll (toolEvents input t)).components
      (d.applyAll (toolEvents input t')).components := by
  have hcomponent : t'.component = t.component := congrArg ("external:".ascii ++ ·) hname
  obtain ⟨f, hf, hchange⟩ := Draft.exists_change
    (fun e he => (about_toolEvents input t he).1) (exists_touches_toolEvents input t)
  obtain ⟨f', hf', hchange'⟩ := Draft.exists_change
    (fun e he => (about_toolEvents input t' he).1) (exists_touches_toolEvents input t')
  have hsame (c : Component) (h : c.name = t.component) :
      Component.SameBut t.component (f c) (f' c) :=
    ⟨(hf' c).trans (hf c).symm, fun hne => absurd ((hf c).trans h) hne⟩
  rw [hchange, hchange', hcomponent]
  refine Draft.forall₂_change (fun h => congrArg Component.name h.symm) (fun h => ?_)
    (fun {c c'} h hc => ?_) (hsame _ rfl) (List.forall₂_same.mpr fun c _ => rfl)
  · subst h
    exact ⟨rfl, fun _ => rfl⟩
  · subst h
    exact hsame c hc

theorem conclusion_state (h : tools ≠ []) : (conclusion input tools).1 = .ran := by
  rw [conclusion, if_neg h]

theorem components_draft (hname : t'.name = t.name) (before after : List Tool) :
    List.Forall₂ (Component.SameButTool t)
      (draft input first (before ++ t :: after)).components
      (draft input first (before ++ t' :: after)).components := by
  -- What comes before the two tools is the same, and what comes after is told to both drafts.
  have hsplit (tool : Tool) :
      (Draft.ofEvents first).applyAll ((before ++ tool :: after).flatMap (toolEvents input)) =
        ((((Draft.ofEvents first).applyAll (before.flatMap (toolEvents input))).applyAll
          (toolEvents input tool)).applyAll (after.flatMap (toolEvents input))) := by
    simp only [Draft.applyAll, List.flatMap_append, List.flatMap_cons, List.foldl_append]
  rw [draft_eq, draft_eq, hsplit, hsplit, Draft.apply, Draft.apply, Draft.withComponent,
    Draft.withComponent, conclusion_state _ _ (by simp), conclusion_state _ _ (by simp)]
  have hrows := Draft.forall₂_components_applyAll (forall₂_toolEvents input hname
    ((Draft.ofEvents first).applyAll (before.flatMap (toolEvents input))))
    (after.flatMap (toolEvents input))
  refine Draft.forall₂_change (fun h => h.name_eq) (fun h => h.sameButTool)
    (fun {c c'} h hc => ?_) ⟨rfl, fun _ => rfl, fun _ hne => absurd rfl hne⟩ hrows
  refine ⟨h.name_eq, fun _ => ?_, fun _ hne => absurd hc hne⟩
  rw [h.eq fun hown => t.component_ne_external (hown.symm.trans hc)]

theorem differsInTool_draft (hname : t'.name = t.name) (before after : List Tool) :
    DiffersInTool input t t' (draft input first (before ++ t :: after))
      (draft input first (before ++ t' :: after)) where
  components := components_draft input first hname before after
  findings := by
    refine ⟨(Draft.ofEvents first).findings ++ before.flatMap (·.found input),
      after.flatMap (·.found input), ?_, ?_⟩ <;>
    rw [findings_draft, List.flatMap_append, List.flatMap_cons, List.append_assoc,
      List.append_assoc]
  notes := by
    have hcomponent : t'.component = t.component := congrArg ("external:".ascii ++ ·) hname
    let own (t : Tool) := (toolEvents input t).filterMap ReportEvent.note?
    refine ⟨(Draft.ofEvents first).notes ++ before.flatMap own, own t, own t', after.flatMap own,
      ?_, ?_, fun n hn => ?_⟩
    · rw [notes_draft, List.flatMap_append, List.flatMap_cons, List.append_assoc,
        List.append_assoc]
    · rw [notes_draft, List.flatMap_append, List.flatMap_cons, List.append_assoc,
        List.append_assoc]
    · rcases List.mem_append.mp hn with hn | hn
      · exact component_of_mem_notes input hn
      · exact (component_of_mem_notes input hn).trans hcomponent
  filesScanned := by rw [filesScanned_draft, filesScanned_draft]
  fingerprint := by rw [fingerprint_draft, fingerprint_draft]

/-- The last that the draft is told is how many tools could be used. -/
theorem entries_draft : ∃ c, (draft input first tools).entries name = [c] ∧
    c.state = (conclusion input tools).1 ∧ c.detail = (conclusion input tools).2 := by
  rw [draft, events_steps, ← List.append_assoc]
  exact Draft.entries_of_status _ name _ _ fun e he => nomatch he

/-- A tool that is not there does the same however it would run. -/
theorem steps_of_not_available {t : Tool} (h : t.available input.machine = false)
    (before after : List Tool) (run : Machine → Text → Int → ToolOutcome) :
    steps input (before ++ { t with run } :: after) = steps input (before ++ t :: after) := by
  have htool : toolSteps input { t with run } = toolSteps input t := by
    simp only [toolSteps, h, Bool.not_false, if_true]
    rfl
  have hempty (tool : Tool) : (before ++ tool :: after).isEmpty = false := by simp
  simp only [steps, hempty, List.map_append, List.map_cons, htool, List.length_append,
    List.length_cons]

end ExternalPass

/-! ## Runs that give nothing -/

namespace Adapter

/-- A run that did not start, ran out of time, was killed, was not completed, or wrote too much. -/
def Fails (a : Adapter) : Except ProcessError ProcessResult → Prop
  | .error _ => True
  | .ok r =>
    r.ending = .timedOut ∨ (∃ signal, r.ending = .killed signal) ∨
      (∃ status, r.ending = .exited status ∧ status ∉ a.completed) ∨ r.truncated

variable {a : Adapter} {r : Except ProcessError ProcessResult}

theorem outcome_of_fails (h : a.Fails r) (formats : Formats) (timeout : Int) :
    ∃ detail, a.outcome formats timeout r = .degraded detail := by
  cases r with
  | error e => exact ⟨_, rfl⟩
  | ok p =>
    simp only [outcome]
    split
    · exact ⟨_, rfl⟩
    · exact ⟨_, rfl⟩
    · rename_i status hending
      simp only [Fails, hending, reduceCtorEq, exists_false, false_or, ProcessEnd.exited.injEq,
        exists_eq_left'] at h
      unfold completedOutcome
      by_cases hstatus : status ∈ a.completed
      · rw [if_neg (by simpa using hstatus), if_pos (h.resolve_left (not_not_intro hstatus))]
        exact ⟨_, rfl⟩
      · rw [if_pos (by simpa using hstatus)]
        exact ⟨_, rfl⟩

/-- A run that did not fail is judged by its output. -/
theorem outcome_of_not_fails (h : ¬a.Fails r) (formats : Formats) (timeout : Int) :
    ∃ p, r = .ok p ∧ a.outcome formats timeout r =
      match a.findingsIn formats p.output with
      | .error e => .degraded ("unparseable output: ".ascii ++ e.message)
      | .ok findings => ⟨.ran, Text.ofNat findings.length ++ " findings".ascii, findings⟩ := by
  cases r with
  | error e => exact absurd trivial h
  | ok p =>
    simp only [Fails, not_or, not_exists, not_and, not_not] at h
    obtain ⟨htime, hkilled, hstatus, htruncated⟩ := h
    refine ⟨p, rfl, ?_⟩
    cases hending : p.ending with
    | timedOut => exact absurd hending htime
    | killed signal => exact absurd hending (hkilled signal)
    | exited status =>
      have hcompleted := hstatus status hending
      cases hfound : a.findingsIn formats p.output <;>
        simp [outcome, hending, completedOutcome, hcompleted, htruncated, hfound]

end Adapter

namespace ExternalPass

/-- **One external tool cannot disturb another.** Whatever was reported before and whatever the
other tools are, two tools of one name leave reports that differ at most in the entry of that tool,
in its notes and findings, and in the detail of the pass. That detail counts the tools that are
there and whose outcome is not degraded. A tool that is not there does the same however it would
run. A program that does not start, runs out of time, is killed, ends with an unexpected status or
writes too much is degraded and gives no findings. -/
theorem tools_isolated {t t' : Tool} (hname : t'.name = t.name) (input : ScanInput)
    (first : List ReportEvent) (before after : List Tool) :
    let tools := before ++ t :: after
    let d := draft input first tools
    DiffersInTool input t t' d (draft input first (before ++ t' :: after)) ∧
    (d.findings = (Draft.ofEvents first).findings ++ tools.flatMap (·.found input)) ∧
    (∃ c, d.entries name = [c] ∧ c.state = .ran ∧
      c.detail = Text.ofNat (tools.countP fun t => t.available input.machine &&
        (t.outcome input).state != .degraded) ++ " of ".ascii ++ Text.ofNat tools.length ++
        " tools ran".ascii) ∧
    (t.available input.machine = false → ∀ run,
      steps input (before ++ { t with run } :: after) = steps input tools) ∧
    ∀ (a : Adapter) (formats : Formats) (timeout : Int) (r : Except ProcessError ProcessResult),
      a.Fails r → (a.outcome formats timeout r).state = .degraded ∧
        (a.outcome formats timeout r).findings = [] := by
  intro tools d
  refine ⟨differsInTool_draft input first hname before after, findings_draft .., ?_,
    fun h => steps_of_not_available input h before after, fun a formats timeout r h => ?_⟩
  · obtain ⟨c, hc, hstate, hdetail⟩ := entries_draft input first tools
    rw [conclusion, if_neg (by simp [tools])] at hstate hdetail
    exact ⟨c, hc, hstate, hdetail⟩
  · obtain ⟨detail, hdetail⟩ := Adapter.outcome_of_fails h formats timeout
    rw [hdetail]
    exact ⟨rfl, rfl⟩

/-- A tool that finds one thing, wherever it is run. -/
def finder : Tool := ⟨"bandit".ascii, fun _ => true, fun _ _ _ => ⟨.ran, [], [Draft.oneLine]⟩⟩

/-- A tool that runs out of time. -/
def slow : Tool :=
  ⟨"trufflehog".ascii, fun _ => true, fun _ _ _ => .degraded "timed out after 42s".ascii⟩

/-- Without the slow tool its note is missing; what the other has found stays. -/
theorem tools_isolated_slow :
    let missing : Tool := { slow with available := fun _ => false }
    missing.name = slow.name ∧
    DiffersInTool Pass.noInput slow missing (draft Pass.noInput [] [finder, slow])
      (draft Pass.noInput [] [finder, missing]) ∧
    (draft Pass.noInput [] [finder, slow]).findings = [Draft.oneLine] ∧
    (draft Pass.noInput [] [finder, slow]).notes ≠
      (draft Pass.noInput [] [finder, missing]).notes := by
  intro missing
  have hname : missing.name = slow.name := rfl
  obtain ⟨hdiffers, hfindings, -⟩ := tools_isolated hname Pass.noInput [] [finder] []
  exact ⟨hname, hdiffers, hfindings.trans (by decide), by decide⟩

end ExternalPass

end Triage
