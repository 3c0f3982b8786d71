import BatchJournal.Pool.Callers

namespace BatchJournal

/-!
# A pool on trial

A trial runs a pool with jobs that note a tag, wait for a gate, or break down, along one schedule:
workers act as soon as they can, a caller acts when no worker can, and a deadline passes only when
nothing else is left to happen.  `Trial.submit`, `Trial.drain` and `Trial.shutDown` run one caller
to its answer.
-/

/-- A job of a trial, as far as it is told apart from others. -/
inductive TrialJob where
  /-- Notes its tag. -/
  | note (tag : Nat)
  /-- Waits for the gate and then notes its tag. -/
  | block (tag : Nat)
  /-- Breaks down. -/
  | fail
deriving DecidableEq, Repr

/-- A pool on trial: with a gate that some jobs wait for, and what jobs have noted. -/
structure Trial where
  /-- The pool and its callers. -/
  shared : Shared TrialJob
  /-- The gate is open. -/
  gateOpen : Bool
  /-- The tags noted so far. -/
  tags : List Nat

namespace Trial

/-- A trial of a new pool: the gate is shut, no tag is noted. -/
def start (workers capacity : Nat) : Trial := ⟨.start TrialJob workers capacity, false, []⟩

/-- The job can come to its end: a `block` only behind an open gate. -/
def canEnd (t : Trial) : TrialJob → Bool
  | .block _ => t.gateOpen
  | _ => true

/-- What a job notes at its end: its tag, if it has one. -/
def noted : TrialJob → List Nat
  | .note tag | .block tag => [tag]
  | .fail => []

/-- A step of a worker; the end of a job has the effect of the job, which is `noted`. -/
def work (t : Trial) (w : Nat) : Option Trial :=
  match t.shared.pool.workers[w]?.bind Worker.running? with
  | some job =>
    if t.canEnd job then
      (t.shared.step (.work w)).map fun s => { t with shared := s, tags := t.tags ++ noted job }
    else none
  | none => (t.shared.step (.work w)).map fun s => { t with shared := s }

/-- A step of the first worker that has one, or `none`. -/
def workAny (t : Trial) : Option Trial :=
  (List.range t.shared.pool.workers.length).findSome? t.work

/-- Lets workers act by `workAny`, at most so many times. -/
def settleWithin : Nat → Trial → Trial
  | 0, t => t
  | fuel + 1, t =>
    match t.workAny with
    | some t' => settleWithin fuel t'
    | none => t

/-- **Lets the workers act** until none can.  A job costs six steps of a worker, and a worker goes
    to sleep or leaves by one more. -/
def settle (t : Trial) : Trial :=
  t.settleWithin (8 * (t.shared.pool.queue.length + t.shared.pool.workers.length + 1))

/-- A move of the caller `i`: its next step, the waking of a worker, or the end of its wait. -/
def callerMove (s : Shared TrialJob) (i : Nat) : Option (Shared TrialJob) :=
  (s.step (.advance i)).or
    ((s.step (.rouse i s.pool.firstAsleep)).or (s.step (.expire i)))

/-- Lets the caller `i` act, after the workers each time, at most so many times. -/
def finishWithin (i : Nat) : Nat → Trial → Trial
  | 0, t => t
  | fuel + 1, t =>
    let t := t.settle
    match callerMove t.shared i with
    | some s => finishWithin i fuel { t with shared := s }
    | none => t

/-- **Runs a request** to its end: where its caller then stands, and the trial. The workers act when
    the caller waits. -/
def run (t : Trial) (r : Request TrialJob) : Option (Caller TrialJob) × Trial :=
  let i := t.shared.callers.length
  let s := { t.shared with callers := t.shared.callers ++ [r.caller] }
  let t := { t with shared := s }.finishWithin i (t.shared.pool.workers.length + 16)
  (t.shared.callers[i]?, t)

/-- Submits a `job`: whether it was taken. -/
def submit (t : Trial) (job : TrialJob) : Bool × Trial :=
  match t.run (.submit job) with
  | (some (.submitted accepted), t) => (accepted, t)
  | (_, t) => (false, t)

/-- Waits until the pool is idle or the deadline passes: whether it is idle, as `drained` says. -/
def drain (t : Trial) : Bool × Trial :=
  match t.run .drain with
  | (some (.drained idle), t) => (idle, t)
  | (_, t) => (false, t)

/-- Shuts the pool down: how many workers were left inside their jobs, as `ended` says. -/
def shutDown (t : Trial) : Nat × Trial :=
  match t.run .shutDown with
  | (some (.ended detached), t) => (detached, t)
  | (_, t) => (0, t)

/-- Opens the gate for the jobs that wait there and for all later ones: `gateOpen`. -/
def openGate (t : Trial) : Trial := { t with gateOpen := true }.settle

/-- So many jobs come to run: `active` of them. -/
def reaches (t : Trial) (active : Nat) : Bool := active ≤ t.settle.shared.pool.active

/-- The tags noted: in order for a single worker, ascending where workers compete. -/
def noteList (t : Trial) : List Nat :=
  if t.shared.pool.workers.length = 1 then t.tags else t.tags.mergeSort

end Trial

end BatchJournal
