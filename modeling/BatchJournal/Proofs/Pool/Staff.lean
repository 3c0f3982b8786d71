import BatchJournal.Proofs.Pool.Tally

namespace BatchJournal

/-!
# The workers of a pool

A pool keeps the workers that it started with, and none of them leaves before the pool is closed.  A
worker falls asleep over an empty queue only, and for a job that is put in one is woken; so somebody
is awake while a job waits.

* `Pool.Staffed` — the workers and the room that a pool was started with.
* `Pool.Served` — no job waits, or a worker is awake.
* `Pool.exists_work` — a worker that is awake can do its next step.
-/

variable {J : Type}

/-- The worker is neither `asleep` nor `exited`. -/
def Worker.isAwake : Worker J → Bool
  | .asleep | .exited => false
  | _ => true

namespace Pool

variable {p p' : Pool J} {w workers capacity : Nat}

/-- **What `p.work w` comes to:** worker `w` is in another place, is `exited` only if the pool is
    closed, and `isAwake` unless no job waits. -/
theorem work_cases {wakes : Bool} (h : p.work w = some (p', wakes)) :
    ∃ new, w < p.workers.length ∧ p'.workers = p.workers.set w new
      ∧ (new.hasExited = true → p.closed = true) ∧ (new.isAwake = true ∨ p'.queue = []) := by
  obtain ⟨old, new, hold, hmove⟩ := workMove_of_work h
  refine ⟨new, (List.getElem?_eq_some_iff.1 hold).1, hmove.workers_eq, ?_⟩
  cases hmove with
  | leaves hqueue hclosed => exact ⟨fun _ => hclosed, .inr hqueue⟩
  | sleeps hqueue => exact ⟨nofun, .inr hqueue⟩
  | takes | ends | uncounts | signals => exact ⟨nofun, .inl rfl⟩
  | counts => split <;> exact ⟨nofun, .inl rfl⟩
  | checks => split <;> exact ⟨nofun, .inl rfl⟩

/-- **A worker that `isAwake`** can do its next step. -/
theorem exists_work {worker : Worker J} (hworker : p.workers[w]? = some worker)
    (hawake : worker.isAwake = true) : ∃ next, p.work w = some next := by
  cases worker with
  | asleep | exited => simp [Worker.isAwake] at hawake
  | looking | running job | leaving job | counting job last | checking job | signalling job =>
    simp only [work, hworker]
    exact ⟨_, rfl⟩

/-! ### The staff -/

/-- **The staff of a pool:** `workers` in number, who stay until it is closed, and room for
    `capacity` jobs. -/
structure Staffed (workers capacity : Nat) (p : Pool J) : Prop where
  /-- The number of workers. -/
  staff : p.workers.length = workers
  /-- The room. -/
  room : p.capacity = capacity
  /-- Nobody leaves an open pool. -/
  stay : p.closed = false → ∀ worker ∈ p.workers, worker.hasExited = false

theorem staffed_start (workers capacity : Nat) :
    (start J workers capacity).Staffed workers capacity where
  staff := List.length_replicate
  room := rfl
  stay := fun _ worker hworker => by rw [List.eq_of_mem_replicate hworker]; rfl

/-- One worker in a place `new`, which is not `exited` unless the pool is closed. -/
theorem Staffed.set (h : p.Staffed workers capacity) {new : Worker J}
    (hworkers : p'.workers = p.workers.set w new) (hcapacity : p'.capacity = p.capacity)
    (hclosed : p'.closed = p.closed) (hnew : new.hasExited = true → p.closed = true) :
    p'.Staffed workers capacity where
  staff := by rw [hworkers, List.length_set]; exact h.staff
  room := hcapacity.trans h.room
  stay := fun hopen worker hworker => by
    rw [hclosed] at hopen
    rw [hworkers] at hworker
    rcases List.mem_or_eq_of_mem_set hworker with hold | rfl
    · exact h.stay hopen worker hold
    · cases hexited : worker.hasExited with
      | false => rfl
      | true => exact absurd ((hnew hexited).symm.trans hopen) (by simp)

theorem Staffed.work (h : p.Staffed workers capacity) {wakes : Bool}
    (hwork : p.work w = some (p', wakes)) : p'.Staffed workers capacity := by
  obtain ⟨new, -, hworkers, hexited, -⟩ := work_cases hwork
  have hkeeps := keeps_work hwork
  exact h.set hworkers hkeeps.capacity hkeeps.closed hexited

theorem Staffed.push (h : p.Staffed workers capacity) {job : J} (hpush : p.push job = some p') :
    p'.Staffed workers capacity := by
  obtain ⟨-, rfl⟩ := eq_of_push hpush
  exact ⟨h.staff, h.room, h.stay⟩

theorem Staffed.rouse (h : p.Staffed workers capacity) {worker : Option Nat}
    (hrouse : p.rouse worker = some p') : p'.Staffed workers capacity := by
  rcases rouse_cases hrouse with ⟨-, rfl⟩ | ⟨w, -, rfl⟩
  · exact h
  · exact h.set rfl rfl rfl nofun

theorem Staffed.close (h : p.Staffed workers capacity) : p.close.Staffed workers capacity :=
  ⟨h.staff, h.room, fun hopen => absurd hopen (by simp [Pool.close])⟩

theorem Staffed.clear (h : p.Staffed workers capacity) : p.clear.Staffed workers capacity where
  staff := by rw [Pool.clear, List.length_map]; exact h.staff
  room := h.room
  stay := fun hopen worker hworker => by
    obtain ⟨old, hold, rfl⟩ := List.mem_map.1 hworker
    have hstay := h.stay hopen old hold
    cases old <;> first | rfl | exact hstay

/-! ### Jobs that wait -/

/-- **No job is forgotten:** `p.queue` is empty, or a worker `isAwake`. -/
def Served (p : Pool J) : Prop := p.queue = [] ∨ ∃ worker ∈ p.workers, worker.isAwake = true

/-- A worker that `isAwake` in its new place serves the pool. -/
theorem served_of_set {new : Worker J} (hlt : w < p.workers.length)
    (hworkers : p'.workers = p.workers.set w new) (hawake : new.isAwake = true) : p'.Served :=
  .inr ⟨new, by rw [hworkers]; exact List.mem_set hlt new, hawake⟩

/-- `p.work w` leaves the pool `Served`, whatever it was before. -/
theorem served_work {wakes : Bool} (h : p.work w = some (p', wakes)) : p'.Served := by
  obtain ⟨new, hlt, hworkers, -, hawake | hqueue⟩ := work_cases h
  · exact served_of_set hlt hworkers hawake
  · exact .inl hqueue

/-- For some choice `rouse` succeeds: a worker can be woken, or nobody sleeps. -/
theorem exists_rouse (p : Pool J) : ∃ worker p', p.rouse worker = some p' := by
  cases hasleep : p.anyAsleep with
  | false => exact ⟨none, p, by simp [rouse, hasleep]⟩
  | true =>
    obtain ⟨worker, hworker, hsleeps⟩ := List.any_eq_true.1 hasleep
    obtain ⟨w, hw⟩ := List.getElem?_of_mem hworker
    cases worker with
    | asleep => exact ⟨some w, p.place w .looking, by simp only [rouse, hw]⟩
    | _ => simp [Worker.isAsleep] at hsleeps

/-- **`rouse` serves an open pool:** the one who was woken is awake, or all are if nobody slept. -/
theorem Staffed.served_rouse (h : p.Staffed workers capacity) (hpos : 0 < workers)
    (hopen : p.closed = false) {worker : Option Nat} (hrouse : p.rouse worker = some p') :
    p'.Served := by
  rcases rouse_cases hrouse with ⟨hnobody, rfl⟩ | ⟨w, hasleep, rfl⟩
  · obtain ⟨first, hfirst⟩ : ∃ first, first ∈ p'.workers :=
      List.exists_mem_of_length_pos (by rw [h.staff]; exact hpos)
    have hstays := h.stay hopen first hfirst
    have hwakes : first.isAsleep = false := by
      simp only [anyAsleep, List.any_eq_false, Bool.not_eq_true] at hnobody
      exact hnobody first hfirst
    refine .inr ⟨first, hfirst, ?_⟩
    cases first with
    | asleep => simp [Worker.isAsleep] at hwakes
    | exited => simp [Worker.hasExited] at hstays
    | looking | running job | leaving job | counting job last | checking job | signalling job => rfl
  · exact served_of_set (List.getElem?_eq_some_iff.1 hasleep).1 rfl rfl

end Pool

end BatchJournal
