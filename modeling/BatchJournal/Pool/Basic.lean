import BatchJournal.Text.Figures

namespace BatchJournal

/-!
# A pool of workers

A fixed number of workers takes jobs from a bounded queue, first in, first out.  Whatever the pool
does while it holds the lock of its queue is one step here.  What it does outside the lock is a
step of its own: the look at the closed flag before a job is put in, the waking of a worker after
that, and the bookkeeping when a job has ended.  An interleaving of the pool is a sequence of such
steps.

* `Pool.work` — the next step of a worker, and whether it wakes those who wait for the pool.
* `Pool.push`, `Pool.rouse` — a job is put in, and a worker woken for it.
* `Pool.close`, `Pool.clear` — the two steps that end the pool.
-/

/-- Where a worker stands, between `looking` into the queue and the end of a job. -/
inductive Worker (J : Type) where
  /-- It is about to look into the queue. -/
  | looking
  /-- It waits for work. -/
  | asleep
  /-- It is inside a job. -/
  | running (job : J)
  /-- The job has ended and still counts as active. -/
  | leaving (job : J)
  /-- The job no longer counts as active; `last` tells that no other did. -/
  | counting (job : J) (last : Bool)
  /-- The job was the last active one; the worker has to see whether the queue is empty too. -/
  | checking (job : J)
  /-- The pool was found idle; the worker has to tell those who wait for that. -/
  | signalling (job : J)
  /-- It has left for good. -/
  | exited
deriving DecidableEq, Repr

namespace Worker

variable {J : Type}

/-- The worker is `asleep`. -/
def isAsleep : Worker J → Bool
  | .asleep => true
  | _ => false

/-- The worker has `exited`. -/
def hasExited : Worker J → Bool
  | .exited => true
  | _ => false

/-- The job that the worker is inside of, if it is `running`. -/
def running? : Worker J → Option J
  | .running job => some job
  | _ => none

/-- The job that has ended and whose bookkeeping is not done: that of a worker which is `leaving`,
    `counting`, `checking` or `signalling`. -/
def finishing? : Worker J → Option J
  | .leaving job | .counting job _ | .checking job | .signalling job => some job
  | _ => none

/-- A sleeper wakes and is `looking`; any other worker stays as it is. -/
def wake : Worker J → Worker J
  | .asleep => .looking
  | w => w

end Worker

/-- A pool with its published numbers, which are changed one at a time and not with what they
    count. -/
structure Pool (J : Type) where
  /-- So many jobs may wait. -/
  capacity : Nat
  /-- The workers. -/
  workers : List (Worker J)
  /-- The jobs that wait, the oldest first. -/
  queue : List J
  /-- The published number of jobs that wait. -/
  depth : Nat
  /-- The published number of jobs that run. -/
  active : Nat
  /-- The published number of jobs that have ended. -/
  completed : Nat
  /-- The published number of workers that have not left. -/
  remaining : Nat
  /-- No job is taken any more. -/
  closed : Bool
deriving Repr

namespace Pool

variable {J : Type}

/-- A pool whose workers have just started: all of them are `looking`. -/
def start (J : Type) (workers capacity : Nat) : Pool J :=
  ⟨capacity, List.replicate workers .looking, [], 0, 0, 0, workers, false⟩

/-- The pool with worker `w` in another place. -/
def place (p : Pool J) (w : Nat) (worker : Worker J) : Pool J :=
  { p with workers := p.workers.set w worker }

/-! ### Workers -/

/-- **A worker looks into the queue:** it takes the oldest job, leaves if the pool is `closed`, or
    goes to sleep. The flag is whether it wakes those who wait for the pool. -/
def look (p : Pool J) (w : Nat) : Pool J × Bool :=
  match p.queue with
  -- A job that waits is taken even when the pool is closed.
  | job :: rest =>
    ({ p.place w (.running job) with queue := rest, depth := p.depth - 1, active := p.active + 1 },
      false)
  | [] =>
    if p.closed then ({ p.place w .exited with remaining := p.remaining - 1 }, true)
    else (p.place w .asleep, false)

/-- **The next step of a worker,** with whether it wakes those who wait for the pool. A sleeper has
    none until it is woken, so `none`. For a worker inside a job the step is the end of the job. -/
def work (p : Pool J) (w : Nat) : Option (Pool J × Bool) :=
  match p.workers[w]? with
  | some .looking => some (p.look w)
  | some (.running job) => some (p.place w (.leaving job), false)
  -- Outside the lock: what others see of the count falls before the job is counted.
  | some (.leaving job) =>
    some ({ p.place w (.counting job (p.active = 1)) with active := p.active - 1 }, false)
  | some (.counting job last) =>
    some ({ p.place w (if last then .checking job else .looking) with completed := p.completed + 1 },
      false)
  | some (.checking job) =>
    some (p.place w (if p.depth = 0 then .signalling job else .looking), false)
  | some (.signalling _) => some (p.place w .looking, true)
  | some .asleep | some .exited | none => none

/-! ### Jobs coming in -/

/-- Puts a job at the end of the queue if there is room: fewer than `capacity` wait. -/
def push (p : Pool J) (job : J) : Option (Pool J) :=
  if p.queue.length < p.capacity then
    some { p with queue := p.queue ++ [job], depth := p.depth + 1 }
  else none

/-- Some worker is `asleep`. -/
def anyAsleep (p : Pool J) : Bool := p.workers.any Worker.isAsleep

/-- Wakes the sleeping worker `w` for `some w`; nobody, for `none`, and only if none sleeps. -/
def rouse (p : Pool J) : Option Nat → Option (Pool J)
  | some w =>
    match p.workers[w]? with
    | some .asleep => some (p.place w .looking)
    | _ => none
  | none => if p.anyAsleep then none else some p

/-- The first worker that is `asleep`. -/
def firstAsleep (p : Pool J) : Option Nat := p.workers.findIdx? Worker.isAsleep

/-! ### The end -/

/-- From now on a submission that looks finds the pool `closed`. -/
def close (p : Pool J) : Pool J := { p with closed := true }

/-- Drops the jobs that wait and wakes every sleeper; `depth` is `0` again. -/
def clear (p : Pool J) : Pool J :=
  { p with queue := [], depth := 0, workers := p.workers.map Worker.wake }

/-! ### Texts -/

/-- What is said when a job is not taken, be the queue full or the pool closed. -/
def refusal : String := "apply pool is full or shut down"

/-- The published numbers by name, from `queue_depth` to `worker_count`. -/
def figures (p : Pool J) : List (String × Nat) := [
  ("queue_depth", p.depth),
  ("active_jobs", p.active),
  ("jobs_completed", p.completed),
  ("worker_count", p.workers.length)]

/-- A description of the pool by its published numbers. -/
def description (p : Pool J) : String :=
  "ApplyPool \x7b stats: " ++ Figures.description "PoolStats" p.figures ++ " \x7d"

end Pool

end BatchJournal
