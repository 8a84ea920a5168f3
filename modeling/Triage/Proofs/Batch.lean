import Mathlib
import Triage.Proofs.Pool
import Triage.Scan

/-!
Batches of targets that a pool of workers runs.

A worker that has taken a target scans it, keeps the report, and is done with it; other workers may
take any steps between these. A scan meets the files as the reports kept so far have left them. So
what comes of a target is one run of it on files that the batch has met (`Batch.Sound`), and if the
reports that are kept change nothing that the scans look at (`Scanner.Undisturbed`), neither the
number of workers nor their schedule shows in any report. With each step of a batch there is less to
do, and some step can be taken until all outcomes are there (`Batch.Step.work_lt`,
`Batch.Sound.progress`).

`Scanner.Returns` says which outcomes a batch can end with; running the targets one after the other
is one way to come to some (`Scanner.returns_runMany`).
-/

namespace Triage

/-! ## What can come of a target -/

namespace Scanner

variable {s : Scanner} {targets targets' : List ScanTarget} {t : ScanTarget} {fs : FileSystem}

/-- What comes of a target if no other one is run. -/
def outcome (s : Scanner) (t : ScanTarget) : ScanOutcome := (s.run t).2.2

/-- The files that a batch of these targets can meet: some reports have been kept. -/
inductive Meets (s : Scanner) (targets : List ScanTarget) : FileSystem → Prop where
  | start : Meets s targets s.machine.files
  | keep {before fs : FileSystem} {t : ScanTarget} (hbefore : Meets s targets before)
      (hfs : Meets s targets fs) (ht : t ∈ targets) :
      Meets s targets (s.conclude fs t ((s.onFiles before).scan t).2).1

/-- The target is scanned on files that the batch meets, and its report is kept on such files. -/
structure CanComeOf (s : Scanner) (targets : List ScanTarget) (t : ScanTarget) (o : ScanOutcome) :
    Prop where
  mem : t ∈ targets
  run : ∃ before fs, s.Meets targets before ∧ s.Meets targets fs ∧
    o = (s.conclude fs t ((s.onFiles before).scan t).2).2.2

/-- The reports that are kept change nothing that the scans of the targets look at. -/
def Undisturbed (s : Scanner) (targets : List ScanTarget) : Prop :=
  ∀ fs, s.Meets targets fs → ∀ t ∈ targets, ((s.onFiles fs).scan t).2 = (s.scan t).2

theorem Meets.mono (h : s.Meets targets fs) (hsub : targets ⊆ targets') : s.Meets targets' fs := by
  induction h with
  | start => exact .start
  | keep _ _ ht hbefore hfs => exact .keep hbefore hfs (hsub ht)

theorem Undisturbed.mono (h : s.Undisturbed targets') (hsub : targets ⊆ targets') :
    s.Undisturbed targets :=
  fun fs hfs t ht => h fs (hfs.mono hsub) t (hsub ht)

theorem run_eq (s : Scanner) (t : ScanTarget) :
    (s.run t).1 = (s.conclude s.machine.files t (s.scan t).2).1 ∧
      s.outcome t = (s.conclude s.machine.files t (s.scan t).2).2.2 := by
  rw [outcome, run]
  generalize s.scan t = scanned
  exact ⟨rfl, rfl⟩

theorem conclude_onFiles (s : Scanner) (fs fs' : FileSystem) (t : ScanTarget)
    (result : Except ScanError Report) :
    (s.onFiles fs).conclude fs' t result = s.conclude fs' t result := by
  cases result with
  | error e => rfl
  | ok report =>
    have hconfig : (s.onFiles fs).config = s.config := rfl
    have hformats : (s.onFiles fs).formats = s.formats := rfl
    rw [conclude, conclude, hconfig, hformats]

/-- A run on other files: a scan of them, and the keeping of its report. -/
theorem outcome_onFiles (s : Scanner) (fs : FileSystem) (t : ScanTarget) :
    ((s.onFiles fs).run t).1 = (s.conclude fs t ((s.onFiles fs).scan t).2).1 ∧
      (s.onFiles fs).outcome t = (s.conclude fs t ((s.onFiles fs).scan t).2).2.2 := by
  have hrun := (s.onFiles fs).run_eq t
  rwa [conclude_onFiles] at hrun

theorem conclude_target (s : Scanner) (fs : FileSystem) (t : ScanTarget)
    (result : Except ScanError Report) : (s.conclude fs t result).2.2.target = t := by
  cases result with
  | error e => rfl
  | ok report =>
    simp only [conclude]
    split
    · rfl
    · split <;> rfl

/-- Keeping a report does not lose it. -/
theorem conclude_report (s : Scanner) (fs : FileSystem) (t : ScanTarget)
    (result : Except ScanError Report) :
    (s.conclude fs t result).2.2.report = result.toOption := by
  cases result with
  | error e => rfl
  | ok report =>
    simp only [conclude]
    split
    · rfl
    · split <;> rfl

theorem conclude_of_not_persisted (h : s.config.persistReports = false) (fs fs' : FileSystem)
    (t : ScanTarget) (result : Except ScanError Report) :
    (s.conclude fs t result).1 = fs ∧
      (s.conclude fs t result).2.2 = (s.conclude fs' t result).2.2 := by
  cases result with
  | error e => exact ⟨rfl, rfl⟩
  | ok report =>
    simp only [conclude, h]
    exact ⟨rfl, rfl⟩

theorem Meets.eq_of_not_persisted (h : s.config.persistReports = false)
    (hmeets : s.Meets targets fs) : fs = s.machine.files := by
  induction hmeets with
  | start => rfl
  | keep _ _ _ _ hfs => exact (conclude_of_not_persisted h _ s.machine.files _ _).1.trans hfs

/-- Reports that are not kept disturb no scan. -/
theorem undisturbed_of_not_persisted (h : s.config.persistReports = false)
    (targets : List ScanTarget) : s.Undisturbed targets := by
  intro fs hfs t _
  rw [hfs.eq_of_not_persisted h]
  rfl

theorem CanComeOf.target_eq {o : ScanOutcome} (h : s.CanComeOf targets t o) : o.target = t := by
  obtain ⟨before, fs, -, -, rfl⟩ := h.run
  exact conclude_target s fs t _

theorem CanComeOf.report_eq {o : ScanOutcome} (h : s.CanComeOf targets t o)
    (hquiet : s.Undisturbed targets) : o.report = (s.outcome t).report := by
  obtain ⟨before, fs, hbefore, -, rfl⟩ := h.run
  rw [conclude_report, hquiet before hbefore t h.mem]
  exact (conclude_report s s.machine.files t _).symm

theorem CanComeOf.eq_of_not_persisted {o : ScanOutcome} (h : s.CanComeOf targets t o)
    (hkeep : s.config.persistReports = false) : o = s.outcome t := by
  obtain ⟨before, fs, hbefore, -, rfl⟩ := h.run
  rw [hbefore.eq_of_not_persisted hkeep]
  exact (conclude_of_not_persisted hkeep fs s.machine.files t _).2

end Scanner

/-! ## Steps of a pool -/

namespace Pool

variable {α : Type} {p : Pool α} {n : Nat}

theorem step_post (h : p.stopping = false) (task : α) : p.step (.post task) =
    { p with accepted := p.accepted ++ [task], waiting := p.waiting ++ [p.accepted.length] } := by
  rw [step, post, h]
  rfl

theorem step_take (h : p.started? .take = some n) : ∃ idle rest, p.idle = idle + 1 ∧
    p.waiting = n :: rest ∧
    p.step .take = { p with idle, waiting := rest, running := n :: p.running } := by
  rw [started?] at h
  cases hidle : p.idle with
  | zero => simp [hidle] at h
  | succ idle =>
    cases hwaiting : p.waiting with
    | nil => simp [hidle, hwaiting] at h
    | cons m rest =>
      obtain rfl : m = n := by simpa [hidle, hwaiting] using h
      exact ⟨idle, rest, rfl, rfl, by rw [step, hidle, hwaiting]⟩

theorem step_finish (h : n ∈ p.running) : p.step (.finish n) =
    { p with
      idle := p.idle + 1, running := p.running.erase n, finished := n :: p.finished } := by
  rw [step, if_pos (by simpa using h)]

theorem step_leave {idle : Nat} (hidle : p.idle = idle + 1) (hstop : p.stopping = true)
    (hwaiting : p.waiting = []) : p.step .leave = { p with idle, gone := p.gone + 1 } := by
  simp [step, hidle, hstop, hwaiting]

end Pool

/-! ## Batches -/

/-- Targets that a pool of workers runs. Tasks are known by their numbers, which are also the places
of their targets. -/
structure Batch where
  files : FileSystem
  pool : Pool ScanTarget
  /-- What the scans of the tasks have answered. -/
  scanned : Nat → Option (Except ScanError Report)
  /-- What has come of the finished tasks. -/
  outcomes : Nat → Option ScanOutcome

namespace Batch

variable {s : Scanner} {targets : List ScanTarget} {workers : Nat} {b b' : Batch}

def start (s : Scanner) (workers : Nat) : Batch :=
  ⟨s.machine.files, .start workers, fun _ => none, fun _ => none⟩

/-- One step of a worker, or of the caller: it posts the targets in their order, waits for all
outcomes, and stops the pool. -/
inductive Step (s : Scanner) (targets : List ScanTarget) : Batch → Batch → Prop where
  | post {b : Batch} {t : ScanTarget} (hgoing : b.pool.stopping = false)
      (ht : targets[b.pool.accepted.length]? = some t) :
      Step s targets b { b with pool := b.pool.step (.post t) }
  | take {b : Batch} {n : Nat} (hn : b.pool.started? .take = some n) :
      Step s targets b { b with pool := b.pool.step .take }
  | scan {b : Batch} {n : Nat} {t : ScanTarget} (hn : n ∈ b.pool.running)
      (ht : b.pool.accepted[n]? = some t) (hnone : b.scanned n = none) :
      Step s targets b
        { b with scanned := Function.update b.scanned n (some ((s.onFiles b.files).scan t).2) }
  | keep {b : Batch} {n : Nat} {t : ScanTarget} {result : Except ScanError Report}
      (hn : n ∈ b.pool.running) (ht : b.pool.accepted[n]? = some t)
      (hresult : b.scanned n = some result) :
      Step s targets b
        { b with
          files := (s.conclude b.files t result).1
          pool := b.pool.step (.finish n)
          outcomes := Function.update b.outcomes n (some (s.conclude b.files t result).2.2) }
  | stop {b : Batch} (hgoing : b.pool.stopping = false)
      (hall : ∀ n < targets.length, b.outcomes n ≠ none) :
      Step s targets b { b with pool := b.pool.step .stop }
  | leave {b : Batch} {idle : Nat} (hidle : b.pool.idle = idle + 1) (hstop : b.pool.stopping = true)
      (hwaiting : b.pool.waiting = []) :
      Step s targets b { b with pool := b.pool.step .leave }

/-- Some steps lead from the one state to the other. -/
abbrev Reaches (s : Scanner) (targets : List ScanTarget) : Batch → Batch → Prop :=
  Relation.ReflTransGen (Step s targets)

/-- All outcomes are there, and in the order of the targets they are these. -/
def Answers (targets : List ScanTarget) (b : Batch) (outcomes : List ScanOutcome) : Prop :=
  (List.range targets.length).map b.outcomes = outcomes.map some

/-! ## No batch goes on for ever -/

/-- The steps that are left to a task that runs, and to its worker. -/
def taskWork (scanned : Nat → Option (Except ScanError Report)) (n : Nat) : Nat :=
  if scanned n = none then 3 else 2

/-- A bound on the steps that are left. -/
def work (targets : List ScanTarget) (b : Batch) : Nat :=
  5 * (targets.length - b.pool.accepted.length) + 4 * b.pool.waiting.length +
    (b.pool.running.map (taskWork b.scanned)).sum + b.pool.idle + if b.pool.stopping then 0 else 1

theorem taskWork_update_le (scanned : Nat → Option (Except ScanError Report)) (n m : Nat)
    (result : Except ScanError Report) :
    taskWork (Function.update scanned n (some result)) m ≤ taskWork scanned m := by
  by_cases hm : m = n
  · rw [taskWork, taskWork, hm, Function.update_self, if_neg (Option.some_ne_none result)]
    split <;> omega
  · rw [taskWork, taskWork, Function.update_of_ne hm]

theorem Step.work_lt (h : Step s targets b b') : b'.work targets < b.work targets := by
  -- A task is worth five before it is posted, four while it waits, then what `taskWork` gives.
  cases h with
  | @post t hgoing ht =>
    have hlength := (List.getElem?_eq_some_iff.mp ht).1
    rw [Pool.step_post hgoing]
    simp only [work, List.length_append, List.length_singleton]
    omega
  | @take n hn =>
    obtain ⟨idle, rest, hidle, hwaiting, hstep⟩ := Pool.step_take hn
    have htask : taskWork b.scanned n ≤ 3 := by
      rw [taskWork]
      split <;> omega
    rw [hstep]
    simp only [work, hidle, hwaiting, List.length_cons, List.map_cons, List.sum_cons]
    omega
  | @scan n t hn ht hnone =>
    generalize ((s.onFiles b.files).scan t).2 = result
    have hless : taskWork (Function.update b.scanned n (some result)) n < taskWork b.scanned n := by
      simp [taskWork, hnone]
    have hsum := List.sum_lt_sum (l := b.pool.running) _ (taskWork b.scanned)
      (fun m _ => taskWork_update_le b.scanned n m result) ⟨n, hn, hless⟩
    simp only [work]
    omega
  | @keep n t result hn ht hresult =>
    have hsum := List.sum_map_erase (taskWork b.scanned) hn
    have htask : taskWork b.scanned n = 2 := by simp [taskWork, hresult]
    rw [Pool.step_finish hn]
    simp only [work]
    omega
  | stop hgoing hall =>
    simp only [work, Pool.step, hgoing, if_true, Bool.false_eq_true, if_false]
    omega
  | @leave idle hidle hstop hwaiting =>
    rw [Pool.step_leave hidle hstop hwaiting]
    simp only [work, hidle]
    omega

theorem wellFounded_step (s : Scanner) (targets : List ScanTarget) :
    WellFounded fun b' b => Step s targets b b' :=
  Subrelation.wf Step.work_lt (measure (work targets)).wf

/-- No batch goes on for ever. -/
theorem not_forall_step (run : Nat → Batch) : ¬∀ k, Step s targets (run k) (run (k + 1)) := by
  intro hrun
  have hwf : IsWellFounded Batch fun b' b => Step s targets b b' := ⟨wellFounded_step s targets⟩
  obtain ⟨k, hk⟩ := WellFounded.not_rel_apply_succ (r := fun b' b => Step s targets b b') run
  exact hk (hrun k)

/-! ## What every run keeps -/

/-- What holds of a batch after any steps. -/
structure Sound (s : Scanner) (targets : List ScanTarget) (workers : Nat) (b : Batch) : Prop where
  accounts : ∃ started, b.pool.Accounts started
  crew : b.pool.workers = workers
  posted : b.pool.accepted <+: targets
  meets : s.Meets targets b.files
  /-- What a scan has answered, it has answered on files that the batch has met. -/
  scanned : ∀ n result, b.scanned n = some result → ∃ t before, targets[n]? = some t ∧
    s.Meets targets before ∧ result = ((s.onFiles before).scan t).2
  finished : ∀ n ∈ b.pool.finished, b.outcomes n ≠ none
  comes : ∀ n o, b.outcomes n = some o → ∃ t, targets[n]? = some t ∧ s.CanComeOf targets t o
  stopped : b.pool.stopping → ∀ n < targets.length, b.outcomes n ≠ none

theorem sound_start (s : Scanner) (targets : List ScanTarget) (workers : Nat) :
    (start s workers).Sound s targets workers where
  accounts := ⟨[], Pool.accounts_start workers⟩
  crew := rfl
  posted := List.nil_prefix
  meets := .start
  scanned _ _ h := nomatch h
  finished _ h := absurd h List.not_mem_nil
  comes _ _ h := nomatch h
  stopped h := nomatch h

theorem Sound.target_of_accepted {n : Nat} {t : ScanTarget} (h : b.Sound s targets workers)
    (ht : b.pool.accepted[n]? = some t) : targets[n]? = some t := by
  obtain ⟨rest, hrest⟩ := h.posted
  rw [← hrest, List.getElem?_append_left (List.getElem?_eq_some_iff.mp ht).1]
  exact ht

/-- A step of the pool alone. -/
theorem Sound.stepPool (h : b.Sound s targets workers) (step : PoolStep ScanTarget)
    (hposted : (b.pool.step step).accepted <+: targets)
    (hfinished : (b.pool.step step).finished = b.pool.finished)
    (hstopped : (b.pool.step step).stopping → ∀ n < targets.length, b.outcomes n ≠ none) :
    Sound s targets workers { b with pool := b.pool.step step } where
  accounts := h.accounts.imp' _ fun _ haccounts => (b.pool.moves_step step).accounts haccounts
  crew := (b.pool.moves_step step).workers.trans h.crew
  posted := hposted
  meets := h.meets
  scanned := h.scanned
  finished := hfinished ▸ h.finished
  comes := h.comes
  stopped := hstopped

/-- A worker keeps the report of its target, and is done with it. -/
theorem Sound.keep {n : Nat} {t : ScanTarget} {result : Except ScanError Report}
    (h : b.Sound s targets workers) (hn : n ∈ b.pool.running) (ht : b.pool.accepted[n]? = some t)
    (hresult : b.scanned n = some result) :
    Sound s targets workers
      { b with
        files := (s.conclude b.files t result).1
        pool := b.pool.step (.finish n)
        outcomes := Function.update b.outcomes n (some (s.conclude b.files t result).2.2) } := by
  -- The files that were scanned need not be those next to which the report is kept.
  obtain ⟨u, before, hu, hbefore, rfl⟩ := h.scanned n result hresult
  obtain rfl := Option.some.inj (hu.symm.trans (h.target_of_accepted ht))
  have hmem : u ∈ targets := List.mem_of_getElem? hu
  let o := (s.conclude b.files u ((s.onFiles before).scan u).2).2.2
  have hkept : ∀ m, b.outcomes m ≠ none → Function.update b.outcomes n (some o) m ≠ none := by
    intro m hm
    by_cases hmn : m = n
    · rw [hmn, Function.update_self]
      exact Option.some_ne_none o
    · rwa [Function.update_of_ne hmn]
  have hfinish := Pool.step_finish hn
  exact
    { accounts := h.accounts.imp' _ fun _ haccounts =>
        (b.pool.moves_step (.finish n)).accounts haccounts
      crew := (b.pool.moves_step _).workers.trans h.crew
      posted := by
        rw [hfinish]
        exact h.posted
      meets := .keep hbefore h.meets hmem
      scanned := h.scanned
      finished := by
        rw [hfinish]
        intro m hm
        rcases List.mem_cons.mp hm with rfl | hm
        · simp
        · exact hkept m (h.finished m hm)
      comes := by
        intro m o' ho
        by_cases hmn : m = n
        · subst hmn
          obtain rfl := Option.some.inj ((Function.update_self m _ _).symm.trans ho)
          exact ⟨u, hu, hmem, before, b.files, hbefore, h.meets, rfl⟩
        · exact h.comes m o' ((Function.update_of_ne hmn _ _).symm.trans ho)
      stopped := by
        rw [hfinish]
        exact fun hstop m hm => hkept m (h.stopped hstop m hm) }

theorem Step.sound (hstep : Step s targets b b') (h : b.Sound s targets workers) :
    b'.Sound s targets workers := by
  cases hstep with
  | @post t hgoing ht =>
    have hpost := Pool.step_post hgoing t
    refine h.stepPool (.post t) ?_ (by rw [hpost]) fun hstop => h.stopped (by rwa [hpost] at hstop)
    -- The target that is posted is the one behind those that were.
    obtain ⟨rest, rfl⟩ := h.posted
    rw [List.getElem?_append_right (le_refl _), Nat.sub_self] at ht
    rw [hpost]
    cases rest with
    | nil => contradiction
    | cons u rest =>
      obtain rfl := Option.some.inj ht
      exact ⟨rest, List.append_assoc _ _ _⟩
  | @take n hn =>
    obtain ⟨idle, rest, -, -, htake⟩ := Pool.step_take hn
    exact h.stepPool .take (by rw [htake]; exact h.posted) (by rw [htake]) fun hstop =>
      h.stopped (by rwa [htake] at hstop)
  | @scan n t hn ht hnone =>
    refine ⟨h.accounts, h.crew, h.posted, h.meets, fun m result hm => ?_, h.finished, h.comes,
      h.stopped⟩
    by_cases hmn : m = n
    · subst hmn
      exact ⟨t, b.files, h.target_of_accepted ht, h.meets,
        (Option.some.inj ((Function.update_self m _ _).symm.trans hm)).symm⟩
    · exact h.scanned m result ((Function.update_of_ne hmn _ _).symm.trans hm)
  | keep hn ht hresult => exact h.keep hn ht hresult
  | stop hgoing hall => exact h.stepPool .stop h.posted rfl fun _ => hall
  | @leave idle hidle hstop hwaiting =>
    have hleave := Pool.step_leave hidle hstop hwaiting
    exact h.stepPool .leave (by rw [hleave]; exact h.posted) (by rw [hleave]) fun _ =>
      h.stopped hstop

theorem sound_of_reaches (h : Reaches s targets (start s workers) b) :
    b.Sound s targets workers := by
  induction h with
  | refl => exact sound_start s targets workers
  | tail _ hstep ih => exact hstep.sound ih

/-! ## Every run comes to all outcomes -/

theorem exists_map_some {α β : Type} {f : α → Option β} {xs : List α} (h : ∀ x ∈ xs, f x ≠ none) :
    ∃ ys : List β, xs.map f = ys.map some := by
  induction xs with
  | nil => exact ⟨[], rfl⟩
  | cons x xs ih =>
    obtain ⟨hx, hxs⟩ := List.forall_mem_cons.mp h
    obtain ⟨y, hy⟩ := Option.ne_none_iff_exists'.mp hx
    obtain ⟨ys, hys⟩ := ih hxs
    exact ⟨y :: ys, by rw [List.map_cons, List.map_cons, hy, hys]⟩

/-- What the caller waits for is there once the pool is stopped. -/
theorem Sound.exists_answers (h : b.Sound s targets workers) (hstop : b.pool.stopping) :
    ∃ outcomes, b.Answers targets outcomes :=
  exists_map_some fun n hn => h.stopped hstop n (List.mem_range.mp hn)

/-- A task that runs is scanned, or its report is kept. -/
theorem Sound.exists_step_of_running {n : Nat} (h : b.Sound s targets workers)
    (hn : n ∈ b.pool.running) : ∃ b', Step s targets b b' := by
  obtain ⟨started, haccounts⟩ := h.accounts
  have haccepted : n < b.pool.accepted.length := by
    refine List.mem_range.mp (haccounts.perm.mem_iff.mp ?_)
    exact List.mem_append_left _ (List.mem_append_right _ hn)
  have ht := List.getElem?_eq_getElem haccepted
  cases hresult : b.scanned n with
  | none => exact ⟨_, .scan hn ht hresult⟩
  | some result => exact ⟨_, .keep hn ht hresult⟩

/-- If nothing waits and nothing runs, the caller goes on. -/
theorem Sound.exists_step_of_quiet (h : b.Sound s targets workers) (hgoing : b.pool.stopping = false)
    (hwaiting : b.pool.waiting = []) (hrunning : b.pool.running = []) :
    ∃ b', Step s targets b b' := by
  cases ht : targets[b.pool.accepted.length]? with
  | some t => exact ⟨_, .post hgoing ht⟩
  | none =>
    refine ⟨_, .stop hgoing fun n hn => h.finished n ?_⟩
    obtain ⟨started, haccounts⟩ := h.accounts
    have hperm := haccounts.perm
    rw [hwaiting, hrunning, List.nil_append, List.nil_append] at hperm
    have hall := List.getElem?_eq_none_iff.mp ht
    exact hperm.mem_iff.mpr (List.mem_range.mpr (by omega))

/-- There is a step left until all workers have left, and then all outcomes are there. -/
theorem Sound.progress (h : b.Sound s targets workers) (hworkers : 0 < workers) :
    (∃ b', Step s targets b b') ∨
      b.pool.isOver ∧ ∃ outcomes, b.Answers targets outcomes := by
  obtain ⟨started, haccounts⟩ := h.accounts
  cases hrunning : b.pool.running with
  | cons n rest =>
    exact Or.inl (h.exists_step_of_running (n := n) (by rw [hrunning]; exact List.mem_cons_self))
  | nil =>
    have hstaff := haccounts.staff
    rw [hrunning, List.length_nil, h.crew] at hstaff
    cases hidle : b.pool.idle with
    | zero =>
      -- All workers have left.
      obtain ⟨hstop, -⟩ := haccounts.left (by omega)
      refine Or.inr ⟨?_, h.exists_answers hstop⟩
      simp only [Pool.isOver, hstop, Bool.true_and, beq_iff_eq, h.crew]
      omega
    | succ idle =>
      refine Or.inl ?_
      cases hwaiting : b.pool.waiting with
      | cons n rest =>
        have hn : b.pool.started? .take = some n := by simp [Pool.started?, hidle, hwaiting]
        exact ⟨_, .take hn⟩
      | nil =>
        cases hstop : b.pool.stopping with
        | true => exact ⟨_, .leave hidle hstop hwaiting⟩
        | false => exact h.exists_step_of_quiet hstop hwaiting hrunning

/-- The outcomes come of the targets, in their order. -/
theorem Sound.forall₂ {outcomes : List ScanOutcome} (h : b.Sound s targets workers)
    (hanswers : b.Answers targets outcomes) :
    List.Forall₂ (s.CanComeOf targets) targets outcomes := by
  have hlength : targets.length = outcomes.length := by
    simpa [Answers] using congrArg List.length hanswers
  refine List.forall₂_iff_get.mpr ⟨hlength, fun n hn hn' => ?_⟩
  have hget := congrArg (·[n]?) hanswers
  simp only [List.getElem?_map, List.getElem?_range hn, Option.map_some,
    List.getElem?_eq_getElem hn', Option.some.injEq] at hget
  obtain ⟨t, ht, hcomes⟩ := h.comes n _ hget
  obtain rfl := Option.some.inj (ht.symm.trans (List.getElem?_eq_getElem hn))
  exact hcomes

/-! ## One target after the other -/

/-- A pool with one worker, which is idle, and to which these targets have been posted. -/
def posted (s : Scanner) (targets : List ScanTarget) : Batch :=
  { start s 1 with
    pool := { (.start 1 : Pool ScanTarget) with
      accepted := targets, waiting := List.range targets.length } }

theorem reaches_posted (s : Scanner) (targets : List ScanTarget) :
    Reaches s targets (start s 1) (posted s targets) := by
  have hposts : ∀ rest before, targets = before ++ rest →
      Reaches s targets (posted s before) (posted s targets) := by
    intro rest
    -- by induction on the targets that are still to be posted
    induction rest with
    | nil =>
      intro before htargets
      rw [htargets, List.append_nil]
    | cons t rest ih =>
      intro before htargets
      have hnext : targets = (before ++ [t]) ++ rest := by
        rw [htargets, List.append_assoc, List.singleton_append]
      have ht : targets[before.length]? = some t := by
        rw [htargets, List.getElem?_append_right (le_refl _), Nat.sub_self]
        rfl
      have hstep : Step s targets (posted s before) (posted s (before ++ [t])) := by
        have hpost := Step.post (s := s) (b := posted s before) rfl ht
        rw [Pool.step_post rfl] at hpost
        simpa only [posted, List.length_append, List.length_singleton, List.range_succ] using hpost
      exact .head hstep (ih _ hnext)
  exact hposts targets [] rfl

/-- The worker has run the first `k` targets. -/
def between (targets : List ScanTarget) (k : Nat) (files : FileSystem)
    (scanned : Nat → Option (Except ScanError Report)) (outcomes : Nat → Option ScanOutcome) :
    Batch :=
  { files
    pool :=
      { workers := 1, idle := 1, gone := 0, accepted := targets
        waiting := List.range' k (targets.length - k), running := []
        finished := (List.range k).reverse, stopping := false }
    scanned, outcomes }

/-- The worker runs its next target. -/
theorem reaches_next {k : Nat} {t : ScanTarget} {files : FileSystem}
    {scanned : Nat → Option (Except ScanError Report)} {outcomes : Nat → Option ScanOutcome}
    (ht : targets[k]? = some t) (hnone : scanned k = none) :
    Reaches s targets (between targets k files scanned outcomes)
      (between targets (k + 1) ((s.onFiles files).run t).1
        (Function.update scanned k (some ((s.onFiles files).scan t).2))
        (Function.update outcomes k (some ((s.onFiles files).outcome t)))) := by
  rw [(s.outcome_onFiles files t).1, (s.outcome_onFiles files t).2]
  generalize hresult : ((s.onFiles files).scan t).2 = result
  have hk := (List.getElem?_eq_some_iff.mp ht).1
  have hwaiting : List.range' k (targets.length - k) =
      k :: List.range' (k + 1) (targets.length - (k + 1)) := by
    rw [show targets.length - k = targets.length - (k + 1) + 1 by omega, List.range'_succ]
  have hstart : (between targets k files scanned outcomes).pool.started? .take = some k := by
    simp [Pool.started?, between, hwaiting]
  have htake := @Step.take s targets _ _ hstart
  -- The target is taken, scanned, and its report is kept.
  let taken : Batch :=
    { between targets k files scanned outcomes with
      pool :=
        { workers := 1, idle := 0, gone := 0, accepted := targets
          waiting := List.range' (k + 1) (targets.length - (k + 1)), running := [k]
          finished := (List.range k).reverse, stopping := false } }
  have htaken : (between targets k files scanned outcomes).pool.step .take = taken.pool := by
    simp only [between, hwaiting]
    rfl
  rw [htaken] at htake
  have hmem : k ∈ taken.pool.running := List.mem_singleton_self k
  have hscan := @Step.scan s targets taken k t hmem ht hnone
  rw [show ((s.onFiles taken.files).scan t).2 = result from hresult] at hscan
  have hkeep := @Step.keep s targets
    { taken with scanned := Function.update scanned k (some result) } k t result hmem ht
    (Function.update_self k _ _)
  have hfinish : taken.pool.step (.finish k) =
      (between targets (k + 1) files scanned outcomes).pool := by
    rw [Pool.step_finish hmem]
    simp [taken, between, List.range_succ]
  refine .tail (.tail (.single htake) hscan) ?_
  rw [hfinish] at hkeep
  exact hkeep

/-- The worker runs all the targets that are left. -/
theorem exists_reaches_between (rest : List ScanTarget) :
    ∀ {k : Nat} {files : FileSystem} {scanned : Nat → Option (Except ScanError Report)}
      {outcomes : Nat → Option ScanOutcome}, targets.drop k = rest → (∀ n ≥ k, scanned n = none) →
      ∃ scanned' outcomes', Reaches s targets (between targets k files scanned outcomes)
          (between targets (k + rest.length) ((s.onFiles files).runMany rest).1 scanned' outcomes') ∧
        (∀ n < k, outcomes' n = outcomes n) ∧
        (List.range' k rest.length).map outcomes' =
          ((s.onFiles files).runMany rest).2.2.map some := by
  induction rest with
  | nil => exact fun _ _ => ⟨_, _, .refl, fun _ _ => rfl, rfl⟩
  | cons t rest ih =>
    intro k files scanned outcomes hdrop hnone
    have ht : targets[k]? = some t := by
      rw [← List.head?_drop, hdrop]
      rfl
    have hrest : targets.drop (k + 1) = rest := by
      rw [← List.tail_drop, hdrop]
      rfl
    have hnone' : ∀ n ≥ k + 1, Function.update scanned k
        (some ((s.onFiles files).scan t).2) n = none := by
      intro n hn
      rw [Function.update_of_ne (by omega)]
      exact hnone n (by omega)
    -- The later targets leave the outcome of this one alone (`hbefore`).
    obtain ⟨scanned', outcomes', hreaches, hbefore, hmap⟩ :=
      @ih (k + 1) ((s.onFiles files).run t).1 _
        (Function.update outcomes k (some ((s.onFiles files).outcome t))) hrest hnone'
    refine ⟨scanned', outcomes', ?_, fun n hn => ?_, ?_⟩
    · rw [List.length_cons, Nat.add_comm rest.length 1, ← Nat.add_assoc]
      exact (reaches_next ht (hnone k (le_refl k))).trans hreaches
    · rw [hbefore n (by omega), Function.update_of_ne (by omega)]
    · rw [List.length_cons, List.range'_succ, List.map_cons, hbefore k (by omega),
        Function.update_self, hmap]
      rfl

end Batch

namespace Scanner

variable {s : Scanner} {targets targets' : List ScanTarget} {outcomes outcomes' : List ScanOutcome}

/-- Running the targets can return these outcomes. A single target is not given to a pool. -/
inductive Returns (s : Scanner) (targets : List ScanTarget) : List ScanOutcome → Prop where
  | alone {t : ScanTarget} (htargets : targets = [t]) : Returns s targets [s.outcome t]
  | pooled {workers : Nat} {b : Batch} {outcomes : List ScanOutcome} (hmany : targets.length ≠ 1)
      (hworkers : 0 < workers) (hreaches : Batch.Reaches s targets (.start s workers) b)
      (hover : b.pool.isOver) (hanswers : b.Answers targets outcomes) : Returns s targets outcomes

/-- Running the targets one after the other is one of the ways to run them. -/
theorem returns_runMany (s : Scanner) (targets : List ScanTarget) :
    s.Returns targets (s.runMany targets).2.2 := by
  by_cases hmany : targets.length = 1
  · obtain ⟨t, rfl⟩ := List.length_eq_one_iff.mp hmany
    exact .alone rfl
  · obtain ⟨scanned, outcomes, hreaches, -, hmap⟩ :=
      @Batch.exists_reaches_between s targets targets 0 s.machine.files (fun _ => none)
        (fun _ => none) rfl fun _ _ => rfl
    rw [Nat.zero_add] at hreaches
    have hstart : Batch.posted s targets = .between targets 0 s.machine.files (fun _ => none)
        (fun _ => none) := by
      simp [Batch.posted, Batch.between, Batch.start, Pool.start, List.range_eq_range']
    have hanswers : (List.range targets.length).map outcomes =
        (s.runMany targets).2.2.map some := by
      rw [List.range_eq_range']
      exact hmap
    let done := Batch.between targets targets.length ((s.onFiles s.machine.files).runMany targets).1
      scanned outcomes
    have hall : ∀ n < targets.length, outcomes n ≠ none := by
      intro n hn hnone
      have hmem : outcomes n ∈ (List.range targets.length).map outcomes :=
        List.mem_map_of_mem (List.mem_range.mpr hn)
      rw [hanswers, hnone] at hmem
      obtain ⟨o, -, ho⟩ := List.mem_map.mp hmem
      contradiction
    -- With all outcomes there, the caller stops the pool, and its worker leaves.
    have hstop := @Batch.Step.stop s targets done rfl hall
    have hleave := @Batch.Step.leave s targets { done with pool := done.pool.step .stop } 0 rfl rfl
      (by simp [done, Batch.between, Pool.step])
    refine .pooled hmany Nat.one_pos (((Batch.reaches_posted s targets).trans
      (hstart ▸ hreaches)).trans (.tail (.single hstop) hleave)) ?_ hanswers
    simp [done, Batch.between, Pool.step, Pool.isOver]

/-- Whatever is returned, the outcomes come of the targets in their order. -/
theorem Returns.forall₂ (h : s.Returns targets outcomes) :
    List.Forall₂ (s.CanComeOf targets) targets outcomes := by
  cases h with
  | @alone t htargets =>
    subst htargets
    exact .cons ⟨List.mem_singleton_self t, _, _, .start, .start, rfl⟩ .nil
  | pooled hmany hworkers hreaches hover hanswers =>
    exact (Batch.sound_of_reaches hreaches).forall₂ hanswers

end Scanner

end Triage
