import BatchJournal.Proofs.Pool.Moves

namespace BatchJournal

/-!
# The jobs of a pool

A job that the pool has taken waits in the queue or is inside a worker.  No step of the pool brings
in a job but the one that puts it in.

* `Pool.jobs` — the jobs that wait or are inside a worker.
* `Pool.mem_jobs_work`, `Pool.mem_jobs_push` — where the jobs of a later pool come from.
-/

namespace Pool

variable {J : Type} {p p' : Pool J} {j : J} {w : Nat}

/-- **The jobs** that wait in `p.queue` or that a worker is `running?`. -/
def jobs (p : Pool J) : List J := p.queue ++ p.workers.filterMap Worker.running?

theorem mem_jobs_iff : j ∈ p.jobs ↔ j ∈ p.queue ∨ ∃ worker ∈ p.workers, worker.running? = some j := by
  simp [jobs]

theorem mem_jobs_of_running {worker : Worker J} (h : p.workers[w]? = some worker)
    (hrunning : worker.running? = some j) : j ∈ p.jobs :=
  mem_jobs_iff.2 (.inr ⟨worker, List.mem_of_getElem? h, hrunning⟩)

@[simp] theorem jobs_start (workers capacity : Nat) : (start J workers capacity).jobs = [] := by
  simp [jobs, start, Worker.running?]

/-- `place w new` brings in the job of `new` at most. -/
theorem mem_jobs_place {new : Worker J} (h : j ∈ (p.place w new).jobs) :
    j ∈ p.jobs ∨ new.running? = some j := by
  rcases mem_jobs_iff.1 h with hqueue | ⟨worker, hworker, hrunning⟩
  · exact .inl (mem_jobs_iff.2 (.inl hqueue))
  · rcases List.mem_or_eq_of_mem_set hworker with hbefore | rfl
    · exact .inl (mem_jobs_iff.2 (.inr ⟨worker, hbefore, hrunning⟩))
    · exact .inr hrunning

/-- **A step of a worker** brings in no job: the one it takes waited before. -/
theorem mem_jobs_work {wakes : Bool} (h : p.work w = some (p', wakes)) (hj : j ∈ p'.jobs) :
    j ∈ p.jobs := by
  obtain ⟨old, new, -, hmove⟩ := workMove_of_work h
  have hplaced : j ∈ p'.queue ∨ j ∈ (p.place w new).jobs := by
    refine (mem_jobs_iff.1 hj).imp_right fun hworker => mem_jobs_iff.2 (.inr ?_)
    rwa [hmove.workers_eq] at hworker
  rcases hmove.takes_or_keeps with ⟨job, -, rfl, hqueue⟩ | ⟨hnew, hqueue⟩
  · -- The oldest job goes from the queue into the worker.
    rcases hplaced with hrest | hplaced
    · exact mem_jobs_iff.2 (.inl (hqueue ▸ List.mem_cons_of_mem _ hrest))
    · rcases mem_jobs_place hplaced with hbefore | hrunning
      · exact hbefore
      · obtain rfl := Option.some.inj hrunning
        exact mem_jobs_iff.2 (.inl (hqueue ▸ List.mem_cons_self))
  · rcases hplaced with hrest | hplaced
    · exact mem_jobs_iff.2 (.inl (hqueue ▸ hrest))
    · rcases mem_jobs_place hplaced with hbefore | hrunning
      · exact hbefore
      · exact nomatch hnew.symm.trans hrunning

/-- **`push job`** brings in no other than `job`. -/
theorem mem_jobs_push {job : J} (h : p.push job = some p') (hj : j ∈ p'.jobs) :
    j ∈ p.jobs ∨ j = job := by
  obtain ⟨-, rfl⟩ := eq_of_push h
  simp only [jobs, List.mem_append, List.mem_singleton] at hj ⊢
  rcases hj with (hqueue | hjob) | hworker
  · exact .inl (.inl hqueue)
  · exact .inr hjob
  · exact .inl (.inr hworker)

/-- `rouse` brings in no job. -/
theorem mem_jobs_rouse {worker : Option Nat} (h : p.rouse worker = some p') (hj : j ∈ p'.jobs) :
    j ∈ p.jobs := by
  rcases rouse_cases h with ⟨-, rfl⟩ | ⟨w, -, rfl⟩
  · exact hj
  · exact (mem_jobs_place hj).resolve_right nofun

/-- `clear` brings in no job. -/
theorem mem_jobs_clear (h : j ∈ p.clear.jobs) : j ∈ p.jobs := by
  rcases mem_jobs_iff.1 h with hqueue | ⟨worker, hworker, hrunning⟩
  · simp [clear] at hqueue
  · obtain ⟨worker', hworker', rfl⟩ := List.mem_map.1 hworker
    refine mem_jobs_iff.2 (.inr ⟨worker', hworker', ?_⟩)
    cases worker' <;> exact hrunning

end Pool

end BatchJournal
