import Triage.Text

/-!
A pool of workers that run tasks in the order in which they were accepted.

The steps of a pool are atomic: a task is posted, an idle worker takes the first waiting task, a
worker finishes its task, the pool is told to stop, and an idle worker leaves once the pool is
stopping and nothing waits. A task that fails is finished like any other; its failure is kept for
whoever waits for its result.
-/

namespace Triage

/-- Why a task is refused. -/
inductive PoolError where
  | stopped
  deriving DecidableEq, Repr

def PoolError.message : PoolError → Text
  | stopped => "thread pool is shut down".ascii

/-- The state of a pool. Tasks are numbered in the order in which they were accepted. -/
structure Pool (α : Type) where
  workers : Nat
  /-- The workers without a task that have not left. -/
  idle : Nat
  /-- The workers that have left. -/
  gone : Nat
  /-- The tasks accepted so far, the first one first. -/
  accepted : List α
  /-- The numbers of the tasks that no worker has taken. -/
  waiting : List Nat
  running : List Nat
  /-- The tasks that are finished, the last one first. -/
  finished : List Nat
  stopping : Bool
  deriving DecidableEq, Repr

inductive PoolStep (α : Type) where
  | post (task : α)
  | take
  /-- The worker of a running task is done with it. -/
  | finish (task : Nat)
  | stop
  | leave
  deriving DecidableEq, Repr

namespace Pool

variable {α β : Type}

def start (workers : Nat) : Pool α :=
  { workers, idle := workers, gone := 0, accepted := [], waiting := [], running := []
    finished := [], stopping := false }

def post (p : Pool α) (task : α) : Except PoolError (Pool α) :=
  if p.stopping then .error .stopped
  else .ok { p with accepted := p.accepted ++ [task], waiting := p.waiting ++ [p.accepted.length] }

/-- The pool after a step; a step that cannot be taken changes nothing. -/
def step (p : Pool α) : PoolStep α → Pool α
  | .post task =>
    match p.post task with
    | .ok p => p
    | .error _ => p
  | .take =>
    match p.idle, p.waiting with
    | idle + 1, n :: rest => { p with idle, waiting := rest, running := n :: p.running }
    | _, _ => p
  | .finish n =>
    if p.running.contains n then
      { p with idle := p.idle + 1, running := p.running.erase n, finished := n :: p.finished }
    else p
  | .stop => { p with stopping := true }
  | .leave =>
    match p.idle with
    | idle + 1 =>
      if p.stopping && p.waiting.isEmpty then { p with idle, gone := p.gone + 1 } else p
    | 0 => p

/-- Whether the call that stopped the pool returns: it waits for all workers to leave. -/
def isOver (p : Pool α) : Bool := p.stopping && p.gone == p.workers

/-- Posts tasks, some of which stop the pool: the refusals, and the pool. -/
def submit (p : Pool α) : List (Option α) → List PoolError × Pool α
  | [] => ([], p)
  | none :: rest => (p.step .stop).submit rest
  | some task :: rest =>
    match p.post task with
    | .ok p => p.submit rest
    | .error e =>
      let (refused, p) := p.submit rest
      (e :: refused, p)

/-- What is known of the result of a task: nothing until it is finished. -/
def result? (run : α → β) (p : Pool α) (task : Nat) : Option β :=
  if p.finished.contains task then p.accepted[task]?.map run else none

/-- The results of the accepted tasks, in the order in which they were accepted. -/
def results (run : α → β) (p : Pool α) : List β := p.accepted.map run

end Pool

end Triage
