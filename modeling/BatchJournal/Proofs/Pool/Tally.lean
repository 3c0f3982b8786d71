import BatchJournal.Proofs.Pool.Moves

namespace BatchJournal

/-!
# Counting the jobs of a pool

Every job that a pool has taken waits in the queue or is inside a worker, until it ends or is
dropped.  `Pool.tally q` counts those of a given kind, and each step of the pool changes the count
by what it does to one job.

* `Pool.tally_work` — a worker moves a job, or ends the one it is inside of.
* `Pool.tally_place` — a worker is put in another place.
* `Pool.tally_push`, `Pool.tally_clear` — a job comes in, and all that wait are dropped.
* `Pool.keeps_work` — a worker takes jobs from the queue and leaves its bounds as they are.
-/

variable {J : Type}

/-- The worker is `running?` a job with `q`: `1` or `0`. -/
def Worker.load (q : J → Bool) (w : Worker J) : Nat := if w.running?.any q then 1 else 0

theorem Worker.load_of_running? {w : Worker J} {job : J} (h : w.running? = some job)
    (q : J → Bool) : w.load q = if q job then 1 else 0 := by
  simp [load, h]

theorem Worker.load_of_running?_none {w : Worker J} (h : w.running? = none) (q : J → Bool) :
    w.load q = 0 := by
  simp [load, h]

namespace Pool

/-- **The number of jobs** with `q` that wait or are inside a worker. -/
def tally (q : J → Bool) (p : Pool J) : Nat :=
  p.queue.countP q + p.workers.countP fun w => w.running?.any q

variable {p p' : Pool J} {q : J → Bool} {w : Nat}

theorem tally_start (workers capacity : Nat) : (start J workers capacity).tally q = 0 := by
  simp [tally, start, List.countP_replicate, Worker.running?]

/-- `tally` is monotone in `q`. -/
theorem tally_mono {q' : J → Bool} (h : ∀ job, q job = true → q' job = true) :
    p.tally q ≤ p.tally q' := by
  have hqueue : p.queue.countP q ≤ p.queue.countP q' := List.countP_mono_left fun job _ => h job
  have hworkers : (p.workers.countP fun w => w.running?.any q)
      ≤ p.workers.countP fun w => w.running?.any q' := by
    refine List.countP_mono_left fun w _ => ?_
    cases w.running? with
    | none => exact id
    | some job => exact h job
  exact Nat.add_le_add hqueue hworkers

/-- `place` changes the tally by the `load` of the worker. -/
theorem tally_place {old : Worker J} (h : p.workers[w]? = some old) (new : Worker J) :
    (p.place w new).tally q + old.load q = p.tally q + new.load q := by
  obtain ⟨hlt, hold⟩ := List.getElem?_eq_some_iff.1 h
  have hset : (p.workers.set w new).countP (fun w => w.running?.any q) = _ := List.countP_set hlt
  have hpos : old.load q ≤ p.workers.countP fun w => w.running?.any q := by
    unfold Worker.load
    split
    · rename_i hany
      exact List.countP_pos_iff.2 ⟨old, List.mem_of_getElem? h, hany⟩
    · exact Nat.zero_le _
  rw [hold] at hset
  simp only [tally, place, Worker.load] at hpos ⊢
  rw [hset]
  omega

/-- **A step of a worker** takes its `load` out of the tally: a job that ends is gone, and one that
    is taken was counted while it waited. -/
theorem tally_work {wakes : Bool} (h : p.work w = some (p', wakes)) :
    ∃ old, p.workers[w]? = some old ∧ p'.tally q + old.load q = p.tally q := by
  obtain ⟨old, new, hold, hmove⟩ := workMove_of_work h
  refine ⟨old, hold, ?_⟩
  have hplaced := @tally_place _ p q w old hold new
  simp only [tally, place, hmove.workers_eq] at hplaced ⊢
  rcases hmove.takes_or_keeps with ⟨job, -, rfl, hqueue⟩ | ⟨hnew, hqueue⟩
  · -- The oldest job goes from the queue into the worker.
    rw [@Worker.load_of_running? _ (.running job) job rfl] at hplaced
    simp only [hqueue, List.countP_cons] at hplaced ⊢
    omega
  · rw [hqueue, hplaced, Worker.load_of_running?_none hnew, Nat.add_zero]

/-- `push job` adds one if `q job`. -/
theorem tally_push {job : J} (h : p.push job = some p') :
    p'.tally q = p.tally q + if q job then 1 else 0 := by
  obtain ⟨-, rfl⟩ := eq_of_push h
  simp only [tally, List.countP_append, List.countP_singleton]
  omega

/-- `rouse` moves no job. -/
theorem tally_rouse {worker : Option Nat} (h : p.rouse worker = some p') :
    p'.tally q = p.tally q := by
  rcases rouse_cases h with ⟨-, rfl⟩ | ⟨w, hasleep, rfl⟩
  · rfl
  · simpa [Worker.load, Worker.running?] using @tally_place _ p q w _ hasleep .looking

@[simp] theorem tally_close : p.close.tally q = p.tally q := rfl

/-- `clear` adds no job. -/
theorem tally_clear : p.clear.tally q ≤ p.tally q := by
  have hworkers : p.clear.workers.countP (fun w => w.running?.any q)
      = p.workers.countP fun w => w.running?.any q := by
    simp only [clear, List.countP_map]
    congr 1
    funext w
    cases w <;> rfl
  simp only [tally, hworkers]
  simp [clear]

/-! ### The queue -/

/-- **A pool that takes nothing in:** its queue is a suffix of what it was, with the same `capacity`
    and `closed`. -/
structure Keeps (p p' : Pool J) : Prop where
  /-- Jobs leave the queue at the front. -/
  queue : p'.queue <:+ p.queue
  /-- There is as much room as before. -/
  capacity : p'.capacity = p.capacity
  /-- The pool is as open as before. -/
  closed : p'.closed = p.closed

theorem Keeps.refl (p : Pool J) : p.Keeps p := ⟨List.suffix_rfl, rfl, rfl⟩

/-- `p.work w` takes nothing in. -/
theorem keeps_work {wakes : Bool} (h : p.work w = some (p', wakes)) : p.Keeps p' := by
  obtain ⟨old, new, -, hmove⟩ := workMove_of_work h
  obtain ⟨hcapacity, hclosed⟩ := hmove.bounds
  refine ⟨?_, hcapacity, hclosed⟩
  rcases hmove.takes_or_keeps with ⟨job, -, -, hqueue⟩ | ⟨-, hqueue⟩
  · exact hqueue ▸ List.suffix_cons job p'.queue
  · exact hqueue ▸ List.suffix_rfl

/-- `rouse` touches neither `queue` nor `capacity` nor `closed`. -/
theorem queue_rouse {worker : Option Nat} (h : p.rouse worker = some p') :
    p'.queue = p.queue ∧ p'.capacity = p.capacity ∧ p'.closed = p.closed := by
  rcases rouse_cases h with ⟨-, rfl⟩ | ⟨w, -, rfl⟩ <;> exact ⟨rfl, rfl, rfl⟩

/-- `push` puts the job at the end of `queue`, and touches neither `capacity` nor `closed`. -/
theorem queue_push {job : J} (h : p.push job = some p') :
    p'.queue = p.queue ++ [job] ∧ p'.capacity = p.capacity ∧ p'.closed = p.closed := by
  obtain ⟨-, rfl⟩ := eq_of_push h
  exact ⟨rfl, rfl, rfl⟩

/-- `push` fails just when there is no room. -/
theorem push_eq_none_iff {job : J} : p.push job = none ↔ p.capacity ≤ p.queue.length := by
  unfold push
  by_cases hroom : p.queue.length < p.capacity
  · rw [if_pos hroom]
    exact ⟨by simp, fun hfull => absurd hroom (Nat.not_lt_of_le hfull)⟩
  · rw [if_neg hroom]
    exact ⟨fun _ => Nat.le_of_not_lt hroom, fun _ => rfl⟩

/-- The jobs with `q` in the queue are among all of them. -/
theorem countP_queue_le (q : J → Bool) (p : Pool J) : p.queue.countP q ≤ p.tally q :=
  Nat.le_add_right _ _

end Pool

end BatchJournal
