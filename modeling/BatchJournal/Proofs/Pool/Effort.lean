import BatchJournal.Proofs.Pool.Moves
import Mathlib.Algebra.Order.BigOperators.Group.List
import Mathlib.Algebra.Order.Ring.Nat

namespace BatchJournal

/-!
# How much a pool has to do

Each job that a pool has taken is a bounded number of steps, and a worker that is woken without a
job is one more.  `Pool.effort` adds them up, so that every step of a worker makes it less; what is
done inside of a job counts as the caller says.

* `Pool.effort_work` — a worker has less to do after its step.
* `Pool.effort_place` — a worker is put in another place.
* `Pool.effort_push`, `Pool.effort_rouse` — a job comes in, and a worker is woken.
-/

variable {J : Type}

/-- How much a worker has still to do where it stands, with `inside job` for one that is
    `running job`. -/
def Worker.effort (inside : J → Nat) : Worker J → Nat
  | .asleep | .exited => 0
  | .looking => 1
  | .signalling _ => 2
  | .checking _ => 3
  | .counting _ _ => 4
  | .leaving _ => 5
  | .running job => inside job

/-- One element of a list replaced: what `f` gives for it changes the sum. -/
theorem sum_map_set {α : Type} {f : α → Nat} {l : List α} {i : Nat} {old : α}
    (h : l[i]? = some old) (new : α) :
    ((l.set i new).map f).sum + f old = (l.map f).sum + f new := by
  induction l generalizing i with
  | nil => simp at h
  | cons a l ih =>
    cases i with
    | zero =>
      obtain rfl : a = old := by simpa using h
      simp only [List.set_cons_zero, List.map_cons, List.sum_cons]
      omega
    | succ i =>
      have hrest := ih (by simpa using h)
      simp only [List.set_cons_succ, List.map_cons, List.sum_cons]
      omega

namespace Pool

variable {p p' : Pool J} {w : Nat} {inside : J → Nat}

/-- **How much a pool has to do:** `8` for each job that waits, and `Worker.effort` for each
    worker. -/
def effort (inside : J → Nat) (p : Pool J) : Nat :=
  8 * p.queue.length + (p.workers.map (Worker.effort inside)).sum

/-- `place` changes the effort of the pool by that of the worker. -/
theorem effort_place {old : Worker J} (h : p.workers[w]? = some old) (new : Worker J) :
    (p.place w new).effort inside + old.effort inside = p.effort inside + new.effort inside := by
  have hsum := @sum_map_set _ (Worker.effort inside) _ _ _ h new
  simp only [effort, place]
  omega

/-- A `WorkMove` to a place with no `running?` job leads to one of less effort. -/
theorem WorkMove.effort_lt (hinside : ∀ job, 5 < inside job) {old new : Worker J} {wakes : Bool}
    (h : p.WorkMove w old new p' wakes) (hnew : new.running? = none) :
    new.effort inside < old.effort inside := by
  cases h with
  | takes => exact nomatch hnew
  | ends => exact hinside _
  | leaves | sleeps | uncounts | signals => simp [Worker.effort]
  | counts => split <;> simp [Worker.effort]
  | checks => split <;> simp [Worker.effort]

/-- **A worker has less to do after its step,** if `5 < inside job < 8`: being inside of a job takes
    more than leaving it and less than a job that waits. -/
theorem effort_work (hinside : ∀ job, 5 < inside job ∧ inside job < 8) {wakes : Bool}
    (h : p.work w = some (p', wakes)) : p'.effort inside < p.effort inside := by
  obtain ⟨old, new, hold, hmove⟩ := workMove_of_work h
  have hplaced := @effort_place _ p w inside old hold new
  simp only [effort, place, hmove.workers_eq] at hplaced ⊢
  rcases hmove.takes_or_keeps with ⟨job, rfl, rfl, hqueue⟩ | ⟨hnew, hqueue⟩
  · -- The job leaves the queue, and the worker is inside of it.
    have hbounds := (hinside job).2
    simp only [hqueue, List.length_cons, Worker.effort] at hplaced ⊢
    omega
  · have hless := hmove.effort_lt (fun job => (hinside job).1) hnew
    rw [hqueue]
    omega

/-- `push` adds `8`. -/
theorem effort_push {job : J} (h : p.push job = some p') :
    p'.effort inside = p.effort inside + 8 := by
  obtain ⟨-, rfl⟩ := eq_of_push h
  simp only [effort, List.length_append, List.length_singleton]
  omega

/-- `rouse` adds one look at most. -/
theorem effort_rouse {worker : Option Nat} (h : p.rouse worker = some p') :
    p'.effort inside ≤ p.effort inside + 1 := by
  rcases rouse_cases h with ⟨-, rfl⟩ | ⟨w, hasleep, rfl⟩
  · exact Nat.le_succ _
  · have hlooking := @effort_place _ p w inside _ hasleep .looking
    simp only [Worker.effort] at hlooking
    omega

end Pool

end BatchJournal
