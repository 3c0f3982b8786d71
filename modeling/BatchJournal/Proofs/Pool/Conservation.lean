import BatchJournal.Proofs.Pool.Ledger
import Mathlib.Data.List.Nodup
import Mathlib.Data.List.Pairwise

namespace BatchJournal

/-!
# What a pool keeps of its jobs

A job that was put in waits, runs, is being finished, is completed, or was dropped, and never two of
these at once.  Jobs are taken in the order in which they came.  The published numbers are the true
ones whenever no worker is between the end of a job and its bookkeeping.

* `JobPlace`, `Ledger.jobsAt` — where the jobs are.
* `Shared.Conserved` — what holds of the jobs after every move.
* `Shared.conserved_of_recorded` — it holds, whatever moves the workers and the callers make.
* `Shared.idle_before_completed` — a pool that is found idle before its job is completed.
-/

variable {J : Type}

/-- Where a job is that was put in; `Ledger.jobsAt` lists the jobs at each place. -/
inductive JobPlace where
  /-- It waits. -/
  | queued
  /-- A worker is inside of it. -/
  | running
  /-- It came to its end, and its worker is at the bookkeeping. -/
  | finishing
  /-- Its worker has done with it. -/
  | completed
  /-- It was dropped from the queue. -/
  | dropped
deriving DecidableEq, Repr

/-- The places of jobs. -/
def JobPlace.all : List JobPlace := [.queued, .running, .finishing, .completed, .dropped]

theorem JobPlace.mem_all (place : JobPlace) : place ∈ JobPlace.all := by cases place <;> decide

/-- The jobs that are at a place: the first three are read off the pool, the others off the
    ledger. -/
def Ledger.jobsAt (l : Ledger J) (p : Pool J) : JobPlace → List J
  | .queued => p.queue
  | .running => p.running
  | .finishing => p.finishing
  | .completed => l.completed
  | .dropped => l.dropped

namespace Pool

variable {p : Pool J}

/-- Where nothing is `finishing`, `isActive` counts the workers inside of a job. -/
theorem active_eq_running (hquiet : p.finishing = []) :
    p.workers.countP Worker.isActive = p.running.length := by
  rw [running, List.length_filterMap_eq_countP]
  refine List.countP_congr fun worker hworker => ?_
  have hfinishing := List.filterMap_eq_nil_iff.1 hquiet worker hworker
  cases worker <;> simp_all [Worker.running?, Worker.isActive, Worker.finishing?]

/-- Where nothing is `finishing`, `hasCounted` counts nobody. -/
theorem hasCounted_eq_zero (hquiet : p.finishing = []) :
    p.workers.countP Worker.hasCounted = 0 := by
  refine List.countP_eq_zero.2 fun worker hworker => ?_
  have hfinishing := List.filterMap_eq_nil_iff.1 hquiet worker hworker
  cases worker <;> simp_all [Worker.hasCounted, Worker.finishing?]

end Pool

/-- What is listed once in `keys.flatMap f` is in `f key` for one `key` only. -/
theorem existsUnique_of_nodup_flatMap {α β : Type} {keys : List α} {f : α → List β} {b : β}
    (hkeys : ∀ key, key ∈ keys) (hnodup : (keys.flatMap f).Nodup) (hmem : b ∈ keys.flatMap f) :
    ∃! key, b ∈ f key := by
  obtain ⟨key, -, hkey⟩ := List.mem_flatMap.1 hmem
  refine ⟨key, hkey, fun other hother => Classical.byContradiction fun hne => ?_⟩
  have : Std.Symm (Function.onFun List.Disjoint f) := ⟨fun _ _ h _ hmem hmem' => h hmem' hmem⟩
  have hapart := (List.nodup_flatMap.1 hnodup).2.forall (hkeys other) (hkeys key) hne
  exact hapart hother hkey

namespace Shared

/-- **What a pool keeps of its jobs,** of which `l` has the record, under all moves of workers and
    callers. -/
structure Conserved (workers capacity : Nat) (s : Shared J) (l : Ledger J) : Prop where
  /-- `accepted` has as many jobs as callers were told so, or are about to be. -/
  answered : l.accepted.length = s.callers.countP Caller.tookIn
  /-- Jobs are `started` in the order in which they were put in, and each of them at most once. -/
  order : (l.started ++ s.pool.queue).Sublist l.accepted
  /-- None is passed over unless a shutdown dropped it. -/
  gapless : l.dropped = [] → l.started ++ s.pool.queue = l.accepted
  /-- Every job of `accepted` is at one `JobPlace`. -/
  places : l.accepted.Perm (JobPlace.all.flatMap (l.jobsAt s.pool))
  /-- It is at one `JobPlace` only: what was put in once is there once. -/
  alone : l.accepted.Nodup → ∀ job ∈ l.accepted, ∃! place, job ∈ l.jobsAt s.pool place
  /-- A job was `started` if it is with a worker or completed. -/
  begun : l.started.Perm (s.pool.running ++ s.pool.finishing ++ l.completed)
  /-- `depth` is the length of the queue. -/
  depth : s.pool.depth = s.pool.queue.length
  /-- The queue keeps to its room. -/
  room : s.pool.depth ≤ capacity
  /-- `active` is at most the number of workers. -/
  active : s.pool.active ≤ workers
  /-- Where nothing is `finishing`, `active` and `completed` are the numbers of `running` and
      completed jobs. -/
  quiet : s.pool.finishing = [] →
    s.pool.active = s.pool.running.length ∧ s.pool.completed = l.completed.length
  /-- A `broken` job is completed like any other, or about to be. -/
  broken : l.broken.Subperm (s.pool.finishing ++ l.completed)
  /-- No worker is lost. -/
  staff : s.pool.workers.length = workers
  /-- None leaves before the pool is closed. -/
  stay : s.pool.closed = false → ∀ worker ∈ s.pool.workers, worker.hasExited = false
  /-- Who is told that the pool is idle (`.drained true`) came after jobs only that came to their
      end or were dropped; of one that came to its end `Worker.finishing?` may still hold. -/
  idle : ∀ {i n : Nat}, s.callers[i]? = some (.drained true) → l.before[i]? = some n →
    (l.accepted.take n).Subperm (s.pool.finishing ++ l.completed ++ l.dropped)

variable {workers capacity : Nat} {s : Shared J} {l : Ledger J}

/-- **No job is lost, doubled or passed over,** and `depth`, `active` and `completed` tell the
    truth: every recorded run is `Conserved`. -/
theorem conserved_of_recorded (h : s.Recorded workers capacity l) :
    s.Conserved workers capacity l := by
  obtain ⟨hbalances, hvouches⟩ := Ledger.agrees_of_recorded h
  have hbegun : l.started.Perm (s.pool.running ++ s.pool.finishing ++ l.completed) := by
    rw [List.append_assoc]
    exact hbalances.begun.trans (hbalances.finished.append_left s.pool.running)
  -- A job that was accepted waits, runs, is about to finish, has completed or was dropped: the
  -- places of `JobPlace.all`.
  have hplaces : l.accepted.Perm (JobPlace.all.flatMap (l.jobsAt s.pool)) := by
    have hlisted : JobPlace.all.flatMap (l.jobsAt s.pool)
        = s.pool.queue ++ (s.pool.running ++ s.pool.finishing ++ l.completed) ++ l.dropped := by
      simp [JobPlace.all, Ledger.jobsAt]
    rw [hlisted]
    have hstarted := List.perm_append_comm.trans (hbegun.append_left s.pool.queue)
    exact hbalances.taken.trans (hstarted.append_right l.dropped)
  constructor
  · exact hvouches.tookIn
  · exact hbalances.order
  · -- Where nothing was dropped, the sublist that was started has the length of all.
    intro hdropped
    refine hbalances.order.eq_of_length ?_
    have htaken := hbalances.taken.length_eq
    simpa [hdropped] using htaken.symm
  · exact hplaces
  · exact fun hnodup job hjob => existsUnique_of_nodup_flatMap JobPlace.mem_all
      (hplaces.nodup_iff.1 hnodup) (hplaces.mem_iff.1 hjob)
  · exact hbegun
  · exact hbalances.depth
  · have hroom := hbalances.room
    rw [hbalances.staffed.room] at hroom
    exact hbalances.depth ▸ hroom
  · rw [hbalances.active, ← hbalances.staffed.staff]
    exact List.countP_le_length
  · -- Between two published changes the counters run behind; in a quiet pool they do not.
    intro hquiet
    refine ⟨hbalances.active.trans (Pool.active_eq_running hquiet), ?_⟩
    rw [hbalances.completed, Pool.hasCounted_eq_zero hquiet, Nat.add_zero]
  · exact hbalances.broken.subperm.trans hbalances.finished.subperm
  · exact hbalances.staffed.staff
  · exact hbalances.staffed.stay
  · -- Whoever was told that the pool was idle was told so when nothing waited and none was active.
    intro i n hdrained hn
    exact (hvouches.idle hdrained hn).trans (hbalances.finished.append_right l.dropped).subperm

/-- Two jobs, `7` and `8`, for one worker, of which the first breaks down, and somebody who waits
    for them. -/
def breakdownSchedule : List (Move Nat × Ending) := [
  (.enter (.submit 7), .returned), (.advance 0, .returned), (.advance 0, .returned),
  (.rouse 0 none, .returned),
  (.enter (.submit 8), .returned), (.advance 1, .returned), (.advance 1, .returned),
  (.rouse 1 none, .returned),
  (.enter .drain, .returned), (.advance 2, .returned),
  (.work 0, .returned), (.work 0, .brokeDown), (.work 0, .returned), (.work 0, .returned),
  (.work 0, .returned),
  (.work 0, .returned), (.work 0, .returned), (.work 0, .returned), (.work 0, .returned),
  (.work 0, .returned), (.work 0, .returned), (.advance 2, .returned)]

/-- After `breakdownSchedule` both jobs are completed, and the one who waited was told
    `drained true`. -/
theorem conserved_of_breakdown :
    ∃ (s : Shared Nat) (l : Ledger Nat), s.Recorded 1 2 l ∧ l.started = [7, 8] ∧ l.broken = [7]
      ∧ l.completed = [7, 8] ∧ s.pool.completed = 2 ∧ s.callers[2]? = some (.drained true)
      ∧ s.Conserved 1 2 l := by
  obtain ⟨s, l, hfollow, hstarted, hbroken, hcompleted, hcount, hdrained⟩ :
      ∃ (s : Shared Nat) (l : Ledger Nat),
        (start Nat 1 2).follow .empty breakdownSchedule = some (s, l) ∧ l.started = [7, 8]
          ∧ l.broken = [7] ∧ l.completed = [7, 8] ∧ s.pool.completed = 2
          ∧ s.callers[2]? = some (.drained true) :=
    ⟨_, _, rfl, rfl, rfl, rfl, rfl, rfl⟩
  have hrecorded : s.Recorded 1 2 l := runs_of_follow hfollow
  exact ⟨s, l, hrecorded, hstarted, hbroken, hcompleted, hcount, hdrained,
    conserved_of_recorded hrecorded⟩

/-- One job for one worker, who has not come to count it when somebody waits for the pool. -/
def uncountedSchedule : List (Move Nat × Ending) := [
  (.enter (.submit 7), .returned), (.advance 0, .returned), (.advance 0, .returned),
  (.rouse 0 none, .returned),
  (.work 0, .returned), (.work 0, .returned), (.work 0, .returned),
  (.enter .drain, .returned), (.advance 1, .returned)]

/-- **Idle before the job is completed.**  The worker of job 7 has lowered `Pool.active` and not yet
    raised `Pool.completed`: who waits for the pool is told that it is idle, and the job that was
    put in before he came is neither completed nor dropped. -/
theorem idle_before_completed :
    ∃ (s : Shared Nat) (l : Ledger Nat), s.Recorded 1 1 l ∧ s.callers[1]? = some (.drained true)
      ∧ l.before[1]? = some 1 ∧ l.accepted.take 1 = [7] ∧ l.completed ++ l.dropped = []
      ∧ s.pool.finishing = [7] ∧ s.pool.completed = 0
      ∧ ¬ (l.accepted.take 1).Subperm (l.completed ++ l.dropped) := by
  obtain ⟨s, l, hfollow, hdrained, hbefore, haccepted, hover, hfinishing, hcount⟩ :
      ∃ (s : Shared Nat) (l : Ledger Nat),
        (start Nat 1 1).follow .empty uncountedSchedule = some (s, l)
          ∧ s.callers[1]? = some (.drained true) ∧ l.before[1]? = some 1
          ∧ l.accepted.take 1 = [7] ∧ l.completed ++ l.dropped = [] ∧ s.pool.finishing = [7]
          ∧ s.pool.completed = 0 :=
    ⟨_, _, rfl, rfl, rfl, rfl, rfl, rfl, rfl⟩
  refine ⟨s, l, runs_of_follow hfollow, hdrained, hbefore, haccepted, hover, hfinishing, hcount, ?_⟩
  rw [haccepted, hover]
  exact fun hsub => absurd hsub.length_le (by decide)

end Shared

end BatchJournal
