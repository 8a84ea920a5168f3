import Mathlib.Algebra.BigOperators.Group.List.Basic
import Mathlib.Data.UInt
import Triage.Proofs.Order

/-!
What a row of events leaves in a draft.

Each part of a draft is read off the events that touch it: the findings and the notes are those of
the events in their order, the files add up, the last fingerprint counts, and the entry of a
component depends on the events that name it (`Draft.filter_components_applyAll`).
-/

namespace Triage

/-! ## Parts of an event -/

namespace ReportEvent

/-- The component whose entry an event changes. -/
def component? : ReportEvent → Option Text
  | started c _ | ended c _ | found c _ | status c _ _ => some c
  | _ => none

/-- What an event does to the entry of its component. -/
def update : ReportEvent → Component → Component
  | started _ time, c => { c with started := time }
  | ended _ time, c => { c with ended := time }
  | found _ findings, c => { c with findings := c.findings + findings.length }
  | status _ state detail, c => { c with state, detail }
  | _, c => c

def findings : ReportEvent → List Finding
  | found _ findings => findings
  | _ => []

def note? : ReportEvent → Option Note
  | note component message => some ⟨component, message⟩
  | _ => none

def files : ReportEvent → UInt64
  | scanned files => files
  | _ => 0

def fingerprint? : ReportEvent → Option Text
  | fingerprint value => some value
  | _ => none

/-- Whether an event changes the entry of the component of that name. -/
def touches (name : Text) (e : ReportEvent) : Bool := e.component? == some name

@[simp] theorem update_name (e : ReportEvent) (c : Component) : (e.update c).name = c.name := by
  cases e <;> rfl

end ReportEvent

/-! ## The draft after a row of events -/

namespace Draft

variable (d : Draft)

theorem applyAll_cons (e : ReportEvent) (es : List ReportEvent) :
    d.applyAll (e :: es) = (d.apply e).applyAll es := rfl

theorem findings_applyAll (es : List ReportEvent) :
    (d.applyAll es).findings = d.findings ++ es.flatMap ReportEvent.findings := by
  induction es generalizing d with
  | nil => simp [applyAll]
  | cons e es ih =>
    rw [applyAll_cons, ih]
    cases e <;> simp [apply, withComponent, ReportEvent.findings]

theorem notes_applyAll (es : List ReportEvent) :
    (d.applyAll es).notes = d.notes ++ es.filterMap ReportEvent.note? := by
  induction es generalizing d with
  | nil => simp [applyAll]
  | cons e es ih =>
    rw [applyAll_cons, ih]
    cases e <;> simp [apply, withComponent, ReportEvent.note?, List.filterMap_cons]

theorem filesScanned_applyAll (es : List ReportEvent) :
    (d.applyAll es).filesScanned = d.filesScanned + (es.map ReportEvent.files).sum := by
  induction es generalizing d with
  | nil => simp [applyAll]
  | cons e es ih =>
    rw [applyAll_cons, ih, List.map_cons, List.sum_cons, ← add_assoc]
    cases e <;> simp [apply, withComponent, ReportEvent.files]

theorem fingerprint_applyAll (es : List ReportEvent) :
    (d.applyAll es).fingerprint =
      (es.filterMap ReportEvent.fingerprint?).getLastD d.fingerprint := by
  induction es generalizing d with
  | nil => rfl
  | cons e es ih =>
    rw [applyAll_cons, ih, List.filterMap_cons]
    cases e with
    | fingerprint value => exact (List.getLastD_cons ..).symm
    | _ => rfl

/-! ## Components -/

theorem components_apply (e : ReportEvent) :
    (d.apply e).components =
      match e.component? with
      | some name => change name e.update d.components
      | none => d.components := by
  cases e <;> rfl

/-- Changing one component leaves the others alone. -/
theorem filter_change (name name' : Text) {f : Component → Component}
    (hf : ∀ c, (f c).name = c.name) (cs : List Component) :
    (change name f cs).filter (·.name = name') =
      if name = name' then change name f (cs.filter (·.name = name'))
      else cs.filter (·.name = name') := by
  induction cs with
  | nil =>
    by_cases h : name = name' <;> simp [change, hf, Component.named, h]
  | cons c cs ih =>
    simp only [change]
    by_cases hc : c.name = name
    · by_cases h : name = name' <;> simp [hc, hf, h, change]
    · by_cases h : name = name'
      · subst h
        simpa [hc] using ih
      · by_cases hc' : c.name = name' <;> simp_all

/-- The entry of a component depends on the events that name it. -/
theorem filter_components_applyAll (name : Text) (es : List ReportEvent) :
    (d.applyAll es).components.filter (·.name = name) =
      (es.filter (·.touches name)).foldl (fun cs e => change name e.update cs)
        (d.components.filter (·.name = name)) := by
  induction es generalizing d with
  | nil => rfl
  | cons e es ih =>
    rw [applyAll_cons, ih, components_apply, List.filter_cons]
    cases h : e.component? with
    | none => simp [ReportEvent.touches, h]
    | some name' =>
      rw [filter_change name' name e.update_name]
      by_cases hname : name' = name <;> simp [ReportEvent.touches, h, hname]

/-! ## Finishing a draft -/

/-- Notes are sorted by all they consist of, so those that tie are equal. -/
theorem sortNotes_congr {l l' : List Note} (h : l.Perm l') : sortNotes l = sortNotes l' := by
  refine Note.precedes_keyed.mergeSort_eq_of_perm h ?_
  rintro ⟨c, m⟩ - ⟨c', m'⟩ - hkey
  obtain ⟨rfl, rfl⟩ := Prod.mk.inj hkey
  rfl

theorem finalize_congr {d d' : Draft}
    (hfindings : Finding.sort d.findings = Finding.sort d'.findings)
    (hcomponents : sortComponents d.components = sortComponents d'.components)
    (hnotes : sortNotes d.notes = sortNotes d'.notes) (hfiles : d.filesScanned = d'.filesScanned)
    (hfingerprint : d.fingerprint = d'.fingerprint) (item target : Text) (time : Int) :
    d.finalize item target time = d'.finalize item target time := by
  simp only [finalize, hfindings, hcomponents, hnotes, hfiles, hfingerprint]

/-- All of a report but its score and verdict is what the draft has, in the order of reports. -/
theorem eq_of_finalize {d : Draft} {item target : Text} {time : Int} {r : Report}
    (h : d.finalize item target time = .ok r) :
    ∃ score verdict, r =
      { item, target
        counts := Score.countByPhase (Finding.sort d.findings)
        score, verdict
        components := sortComponents d.components
        notes := sortNotes d.notes
        findings := Finding.sort d.findings
        filesScanned := d.filesScanned
        fingerprint := d.fingerprint
        generatedAt := time
        tableVersion := RuleTable.version } := by
  unfold finalize at h
  simp only [bind, Except.bind] at h
  split at h
  · contradiction
  split at h
  · contradiction
  split at h
  · contradiction
  cases h
  exact ⟨_, _, rfl⟩

/-- A report lists the findings of the draft in their order. -/
theorem findings_of_finalize {d : Draft} {item target : Text} {time : Int} {r : Report}
    (h : d.finalize item target time = .ok r) : r.findings = Finding.sort d.findings := by
  obtain ⟨_, _, rfl⟩ := eq_of_finalize h
  rfl

theorem notes_of_finalize {d : Draft} {item target : Text} {time : Int} {r : Report}
    (h : d.finalize item target time = .ok r) : r.notes = sortNotes d.notes := by
  obtain ⟨_, _, rfl⟩ := eq_of_finalize h
  rfl

end Draft

end Triage
