import Mathlib.Data.List.Perm.Basic
import Mathlib.Data.List.Range
import Triage.Pool

/-!
A pool loses no task and runs none twice.

`Pool.Moves` says once what a step can do; all else is read off it. `Pool.Accounts` says where the
accepted tasks are and where the workers are, given the tasks that were started so far, and every
step preserves it (`Pool.Moves.accounts`), hence every row of steps does. A worker leaves only while
nothing waits, and nothing is accepted after that; so when all workers have left, every accepted task
is finished. A pool that was told to stop has a step left until that is so, and `Pool.work` bounds
the number of such steps.
-/

namespace Triage

namespace PoolStep

variable {α : Type}

def task? : PoolStep α → Option α
  | post task => some task
  | _ => none

def isStop : PoolStep α → Bool
  | stop => true
  | _ => false

end PoolStep

namespace Pool

variable {α β ε : Type} {p q : Pool α} {s : PoolStep α} {started : List Nat}

/-! ## Rows of steps -/

/-- The pool after a row of steps. -/
def run (p : Pool α) (steps : List (PoolStep α)) : Pool α := steps.foldl step p

/-- The task that a worker takes in a step. -/
def started? (p : Pool α) : PoolStep α → Option Nat
  | .take => if p.idle = 0 then none else p.waiting.head?
  | _ => none

/-- The tasks that workers take in a row of steps, the first one first. -/
def starts (p : Pool α) : List (PoolStep α) → List Nat
  | [] => []
  | s :: rest => (p.started? s).toList ++ (p.step s).starts rest

theorem run_cons (p : Pool α) (s : PoolStep α) (rest : List (PoolStep α)) :
    p.run (s :: rest) = (p.step s).run rest := rfl

/-! ## What a step can do -/

/-- What becomes of a pool in a step. -/
inductive Moves (p : Pool α) : PoolStep α → Pool α → Prop where
  /-- The step cannot be taken. -/
  | stays {s : PoolStep α} (hpost : s.task?.isSome → p.stopping) (hstop : s.isStop = false)
      (hstart : p.started? s = none) : Moves p s p
  | accepts {task : α} (hstop : ¬p.stopping) :
      Moves p (.post task)
        { p with accepted := p.accepted ++ [task], waiting := p.waiting ++ [p.accepted.length] }
  | starts {idle n : Nat} {rest : List Nat} (hidle : p.idle = idle + 1)
      (hwaiting : p.waiting = n :: rest) :
      Moves p .take { p with idle, waiting := rest, running := n :: p.running }
  | finishes {n : Nat} (hn : n ∈ p.running) :
      Moves p (.finish n)
        { p with
          idle := p.idle + 1, running := p.running.erase n, finished := n :: p.finished }
  | stops : Moves p .stop { p with stopping := true }
  | leaves {idle : Nat} (hidle : p.idle = idle + 1) (hstop : p.stopping)
      (hwaiting : p.waiting = []) : Moves p .leave { p with idle, gone := p.gone + 1 }

theorem post_of_stopping (h : p.stopping) (task : α) :
    p.post task = .error .stopped ∧ p.step (.post task) = p := by
  have hpost : p.post task = .error .stopped := by rw [post, if_pos h]
  refine ⟨hpost, ?_⟩
  rw [step, hpost]

theorem moves_step (p : Pool α) (s : PoolStep α) : p.Moves s (p.step s) := by
  cases s with
  | post task =>
    by_cases hstop : p.stopping
    · rw [(post_of_stopping hstop task).2]
      exact .stays (fun _ => hstop) rfl rfl
    · rw [step, post, if_neg hstop]
      exact .accepts hstop
  | take =>
    cases hidle : p.idle with
    | zero =>
      rw [step, hidle]
      exact .stays (by simp [PoolStep.task?]) rfl (by rw [started?, if_pos hidle])
    | succ idle =>
      cases hwaiting : p.waiting with
      | nil =>
        rw [step, hidle, hwaiting]
        exact .stays (by simp [PoolStep.task?]) rfl (by simp [started?, hwaiting])
      | cons n rest =>
        rw [step, hidle, hwaiting]
        exact .starts hidle hwaiting
  | finish n =>
    by_cases hn : n ∈ p.running
    · rw [step, if_pos (by simpa using hn)]
      exact .finishes hn
    · rw [step, if_neg (by simpa using hn)]
      exact .stays (by simp [PoolStep.task?]) rfl rfl
  | stop => exact .stops
  | leave =>
    cases hidle : p.idle with
    | zero =>
      rw [step, hidle]
      exact .stays (by simp [PoolStep.task?]) rfl rfl
    | succ idle =>
      simp only [step, hidle]
      split
      · rename_i hleave
        rw [Bool.and_eq_true, List.isEmpty_iff] at hleave
        exact .leaves hidle hleave.1 hleave.2
      · exact .stays (by simp [PoolStep.task?]) rfl rfl

theorem Moves.workers (h : p.Moves s q) : q.workers = p.workers := by
  cases h <;> rfl

theorem Moves.stopping (h : p.Moves s q) : q.stopping = (p.stopping || s.isStop) := by
  cases h with
  | stays _ hstop => rw [hstop, Bool.or_false]
  | stops => exact (Bool.or_true _).symm
  | accepts | starts | finishes | leaves => exact (Bool.or_false _).symm

/-- A step adds to the accepted tasks what is posted while the pool is not stopping. -/
theorem Moves.accepted (h : p.Moves s q) :
    q.accepted = p.accepted ++ if p.stopping then [] else s.task?.toList := by
  cases h with
  | stays hpost =>
    cases htask : s.task? with
    | none => simp
    | some task => rw [if_pos (hpost (by rw [htask]; rfl)), List.append_nil]
  | accepts hstop => rw [if_neg hstop]; rfl
  | starts | finishes | stops | leaves => simp [PoolStep.task?]

theorem workers_run (p : Pool α) (steps : List (PoolStep α)) :
    (p.run steps).workers = p.workers := by
  induction steps generalizing p with
  | nil => rfl
  | cons s rest ih => rw [run_cons, ih, (p.moves_step s).workers]

/-- All tasks are accepted that are posted before the pool is told to stop, and no others. -/
theorem accepted_run (p : Pool α) (steps : List (PoolStep α)) :
    (p.run steps).accepted = p.accepted ++
      if p.stopping then [] else (steps.takeWhile (!·.isStop)).filterMap PoolStep.task? := by
  induction steps generalizing p with
  | nil => simp [run]
  | cons s rest ih =>
    rw [run_cons, ih, (p.moves_step s).accepted, (p.moves_step s).stopping, List.append_assoc]
    congr 1
    cases hstopping : p.stopping with
    | true => rfl
    | false =>
      cases s with
      | post task => rfl
      | stop => rfl
      | take | finish | leave => rfl

/-! ## Where the tasks and the workers are -/

/-- What holds of a pool in which workers took the tasks `started`, in this order. -/
structure Accounts (p : Pool α) (started : List Nat) : Prop where
  /-- Tasks are started in the order in which they were accepted, each of them once. -/
  order : started ++ p.waiting = List.range p.accepted.length
  kept : (p.running ++ p.finished).Perm started
  /-- Every worker is idle, runs one task, or has left. -/
  staff : p.idle + p.running.length + p.gone = p.workers
  /-- No worker leaves while a task waits, and no task comes after that. -/
  left : 0 < p.gone → p.stopping ∧ p.waiting = []

theorem accounts_start (workers : Nat) : (start workers : Pool α).Accounts [] where
  order := rfl
  kept := List.Perm.refl _
  staff := rfl
  left h := absurd h (Nat.lt_irrefl 0)

theorem Moves.accounts (hmoves : p.Moves s q) (h : p.Accounts started) :
    q.Accounts (started ++ (p.started? s).toList) := by
  have hstaff := h.staff
  cases hmoves with
  | stays _ _ hstart =>
    rw [hstart]
    simpa using h
  | @accepts task hstop =>
    simp only [started?, Option.toList_none, List.append_nil]
    refine ⟨?_, h.kept, h.staff, fun hgone => absurd (h.left hgone).1 hstop⟩
    rw [← List.append_assoc, h.order, List.length_append, List.length_singleton, List.range_succ]
  | @starts idle n rest hidle hwaiting =>
    -- The task that is taken is the first of those that wait, so it is started next.
    rw [started?, if_neg (by omega), hwaiting, List.head?_cons, Option.toList_some]
    refine ⟨?_, ?_, ?_, fun hgone => ?_⟩
    · rw [List.append_assoc, List.singleton_append, ← hwaiting, h.order]
    · exact (h.kept.cons n).trans (List.perm_append_singleton n started).symm
    · simp only [List.length_cons]
      omega
    · exact absurd (h.left hgone).2 (by simp [hwaiting])
  | @finishes n hn =>
    have hlength := List.length_erase_of_mem hn
    have hpos := List.length_pos_of_mem hn
    simp only [started?, Option.toList_none, List.append_nil]
    refine ⟨h.order, ?_, ?_, h.left⟩
    · -- The task moves from the running ones to the finished ones.
      have hmove : (p.running.erase n ++ n :: p.finished).Perm (p.running ++ p.finished) :=
        calc (p.running.erase n ++ n :: p.finished).Perm (n :: p.running.erase n ++ p.finished) :=
              List.perm_middle
          List.Perm _ (p.running ++ p.finished) := (List.perm_cons_erase hn).symm.append_right _
      exact hmove.trans h.kept
    · simp only [hlength]
      omega
  | stops =>
    simp only [started?, Option.toList_none, List.append_nil]
    exact ⟨h.order, h.kept, h.staff, fun hgone => ⟨rfl, (h.left hgone).2⟩⟩
  | leaves hidle hstop hwaiting =>
    simp only [started?, Option.toList_none, List.append_nil]
    refine ⟨h.order, h.kept, ?_, fun _ => ⟨hstop, hwaiting⟩⟩
    simp only
    omega

namespace Accounts

theorem run (h : p.Accounts started) (steps : List (PoolStep α)) :
    (p.run steps).Accounts (started ++ p.starts steps) := by
  induction steps generalizing p started with
  | nil => simpa [Pool.run, starts] using h
  | cons s rest ih =>
    rw [run_cons, starts, ← List.append_assoc]
    exact ih ((p.moves_step s).accounts h)

/-- Every accepted task waits, runs or is finished. -/
theorem perm (h : p.Accounts started) :
    (p.waiting ++ p.running ++ p.finished).Perm (List.range p.accepted.length) := by
  rw [← h.order, List.append_assoc]
  exact (h.kept.append_left _).trans List.perm_append_comm

theorem nodup (h : p.Accounts started) : started.Nodup := by
  have hall := List.nodup_range (n := p.accepted.length)
  rw [← h.order] at hall
  exact hall.sublist (List.sublist_append_left _ _)

/-- When all workers have left, there is nothing that waits and nothing that runs. -/
theorem none_left (h : p.Accounts started) (hworkers : 0 < p.workers) (hover : p.isOver) :
    p.waiting = [] ∧ p.running = [] := by
  simp only [isOver, Bool.and_eq_true, beq_iff_eq] at hover
  have hstaff := h.staff
  have hgone : 0 < p.gone := by omega
  refine ⟨(h.left hgone).2, List.eq_nil_of_length_eq_zero ?_⟩
  omega

end Accounts

theorem accounts_run (workers : Nat) (steps : List (PoolStep α)) :
    ((start workers).run steps).Accounts ((start workers).starts steps) :=
  (accounts_start workers).run steps

/-! ## Stopping comes to an end -/

/-- A bound on the steps that are left to a pool that accepts no more tasks. -/
def work (p : Pool α) : Nat := 3 * p.waiting.length + 2 * p.running.length + p.idle

/-- A pool that was told to stop has a step left until all workers have left. -/
theorem Accounts.exists_moves (h : p.Accounts started) (hstop : p.stopping) (hover : ¬p.isOver) :
    ∃ s, (p.step s).work < p.work := by
  cases hrunning : p.running with
  | cons n rest =>
    refine ⟨.finish n, ?_⟩
    rw [step, if_pos (by simp [hrunning])]
    simp only [work, hrunning, List.erase_cons_head, List.length_cons]
    omega
  | nil =>
    cases hidle : p.idle with
    | zero =>
      -- Nobody runs a task and nobody is idle, so all workers have left.
      have hstaff := h.staff
      rw [hidle, hrunning, List.length_nil] at hstaff
      refine absurd ?_ hover
      simp only [isOver, hstop, Bool.true_and, beq_iff_eq]
      omega
    | succ idle =>
      cases hwaiting : p.waiting with
      | cons n rest =>
        refine ⟨.take, ?_⟩
        rw [step, hidle, hwaiting]
        simp only [work, hidle, hwaiting, hrunning, List.length_cons]
        omega
      | nil =>
        refine ⟨.leave, ?_⟩
        rw [step, hidle, hstop, hwaiting]
        simp only [work, hidle, hwaiting, hrunning, List.isEmpty_nil, Bool.and_self, if_true]
        omega

/-- The call that stops a pool returns, if the workers go on. -/
theorem Accounts.exists_isOver (h : p.Accounts started) (hstop : p.stopping) :
    ∃ steps, (p.run steps).isOver := by
  induction hwork : p.work using Nat.strongRecOn generalizing p started with
  | ind n ih =>
    by_cases hover : p.isOver
    · exact ⟨[], hover⟩
    · obtain ⟨s, hless⟩ := h.exists_moves hstop hover
      have hstop' : (p.step s).stopping := by rw [(p.moves_step s).stopping, hstop]; rfl
      obtain ⟨steps, hsteps⟩ := ih _ (hwork ▸ hless) ((p.moves_step s).accounts h) hstop' rfl
      exact ⟨s :: steps, hsteps⟩

/-! ## The results of the tasks -/

theorem result?_of_finished (run : α → β) {task : Nat} (hmem : task ∈ p.finished)
    (h : task < p.accepted.length) : p.result? run task = some (run p.accepted[task]) := by
  rw [result?, if_pos (by simpa using hmem), List.getElem?_eq_getElem h, Option.map_some]

theorem results_of_finished (run : α → β) (h : p.finished.Perm (List.range p.accepted.length)) :
    (List.range p.accepted.length).map (p.result? run) = (p.results run).map some := by
  apply List.ext_getElem
  · simp [results]
  · intro task hleft hright
    have htask : task < p.accepted.length := by simpa using hleft
    have hmem : task ∈ p.finished := h.mem_iff.mpr (List.mem_range.mpr htask)
    simpa [results] using result?_of_finished run hmem htask

/-- **No task is lost and none is run twice.** After any row of steps of a pool with workers, the
accepted tasks are those posted before the pool was told to stop; each of them waits, runs or is
finished, and is in no two of these states. Tasks are started in the order in which they were
accepted, each at most once. Once the pool is told to stop, posts are refused and change nothing,
and the call that told it so can return; when it returns, all accepted tasks are finished, and all
their results are there, be they values or failures. -/
theorem run_keeps_tasks {workers : Nat} (hworkers : 0 < workers) (steps : List (PoolStep α)) :
    let p := (start workers).run steps
    let started := (start workers).starts steps
    p.accepted = (steps.takeWhile (!·.isStop)).filterMap PoolStep.task? ∧
    (p.waiting ++ p.running ++ p.finished).Perm (List.range p.accepted.length) ∧
    started ++ p.waiting = List.range p.accepted.length ∧ started.Nodup ∧
    (p.running ++ p.finished).Perm started ∧
    (p.stopping → (∀ task, p.post task = .error .stopped ∧ p.step (.post task) = p) ∧
      ∃ more, (p.run more).isOver) ∧
    (p.isOver → p.finished.Perm (List.range p.accepted.length) ∧
      ∀ run : α → Except ε β,
        (List.range p.accepted.length).map (p.result? run) = (p.results run).map some) := by
  intro p started
  have h : p.Accounts started := accounts_run workers steps
  refine ⟨?_, h.perm, h.order, h.nodup, h.kept, fun hstop => ?_, fun hover => ?_⟩
  · exact accepted_run (start workers) steps
  · exact ⟨fun task => post_of_stopping hstop task, h.exists_isOver hstop⟩
  · have hcrew : 0 < p.workers := by rwa [workers_run]
    obtain ⟨hwaiting, hrunning⟩ := h.none_left hcrew hover
    have hfinished : p.finished.Perm (List.range p.accepted.length) := by
      simpa [hwaiting, hrunning] using h.perm
    exact ⟨hfinished, fun run => results_of_finished run hfinished⟩

/-- A pool that is told to stop while a task waits, and is then given another one. -/
def stoppedEarly : List (PoolStep Nat) :=
  [.post 5, .take, .post 7, .take, .post 9, .stop, .post 11, .leave, .finish 1, .take, .finish 0,
   .leave, .finish 2, .leave]

/-- Doubles a number; one of them fails. -/
def doubleUnlessSeven (n : Nat) : Except Text Nat :=
  if n = 7 then .error "seven".ascii else .ok (2 * n)

theorem run_keeps_tasks_stoppedEarly :
    0 < 2 ∧ ((start 2).run stoppedEarly).isOver ∧
      ((start 2).run stoppedEarly).accepted = [5, 7, 9] ∧
      ((start 2).run stoppedEarly).finished.Perm [0, 1, 2] ∧
      [0, 1, 2].map (((start 2).run stoppedEarly).result? doubleUnlessSeven) =
        [some (.ok 10), some (.error "seven".ascii), some (.ok 18)] := by
  have hover : ((start 2).run stoppedEarly).isOver := by decide
  obtain ⟨haccepted, -, -, -, -, -, hend⟩ :=
    @run_keeps_tasks Nat Nat Text 2 (by decide) stoppedEarly
  obtain ⟨hfinished, hresults⟩ := hend hover
  exact ⟨by decide, hover, haccepted, hfinished, hresults doubleUnlessSeven⟩

end Pool

end Triage
