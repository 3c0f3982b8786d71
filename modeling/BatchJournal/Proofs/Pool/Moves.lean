import BatchJournal.Pool.Callers

namespace BatchJournal

/-!
# What one move does

A pool that is shared by callers moves in many small ways.  This module says once what each of them
does to the worker or caller that moves and to the pool, so that an invariant of all interleavings
is checked kind by kind.

* `Pool.WorkMove` — the eight ways in which a worker gets on.
* `Shared.CallerMove` — the ways in which a caller gets on, by itself, by waking a worker, or
  because its deadline passes.
* `Shared.Moves` — a worker gets on, a caller comes, or a caller gets on.
-/

variable {J : Type}

/-! ### Workers -/

namespace Pool

/-- **How a worker gets on:** `p.WorkMove w old new p' wakes` — worker `w` of `p` goes from `old` to
    `new`, which leaves the pool `p'`, and `wakes` tells whether those who wait for the pool are
    woken. -/
inductive WorkMove (p : Pool J) (w : Nat) : Worker J → Worker J → Pool J → Bool → Prop where
  /-- It takes the oldest job of `p.queue`. -/
  | takes {job : J} {rest : List J} (hqueue : p.queue = job :: rest) :
      WorkMove p w .looking (.running job)
        { p.place w (.running job) with
          queue := rest, depth := p.depth - 1, active := p.active + 1 } false
  /-- No job waits and the pool is `closed`: it leaves. -/
  | leaves (hqueue : p.queue = []) (hclosed : p.closed = true) :
      WorkMove p w .looking .exited { p.place w .exited with remaining := p.remaining - 1 } true
  /-- No job waits: it goes to sleep. -/
  | sleeps (hqueue : p.queue = []) (hopen : p.closed = false) :
      WorkMove p w .looking .asleep (p.place w .asleep) false
  /-- Its job comes to an end: `running` becomes `leaving`. -/
  | ends {job : J} : WorkMove p w (.running job) (.leaving job) (p.place w (.leaving job)) false
  /-- The job does not count as `active` any more. -/
  | uncounts {job : J} :
      WorkMove p w (.leaving job) (.counting job (p.active = 1))
        { p.place w (.counting job (p.active = 1)) with active := p.active - 1 } false
  /-- The job is counted as `completed`. -/
  | counts {job : J} {last : Bool} :
      WorkMove p w (.counting job last) (if last then .checking job else .looking)
        { p.place w (if last then .checking job else .looking) with completed := p.completed + 1 }
        false
  /-- It sees whether the queue is empty too, by `p.depth = 0`. -/
  | checks {job : J} :
      WorkMove p w (.checking job) (if p.depth = 0 then .signalling job else .looking)
        (p.place w (if p.depth = 0 then .signalling job else .looking)) false
  /-- It tells those who wait for the pool. -/
  | signals {job : J} : WorkMove p w (.signalling job) .looking (p.place w .looking) true

variable {p p' : Pool J} {w : Nat} {old new : Worker J} {wakes : Bool}

/-- Every step `p.work w` is a `WorkMove`. -/
theorem workMove_of_work (h : p.work w = some (p', wakes)) :
    ∃ old new, p.workers[w]? = some old ∧ p.WorkMove w old new p' wakes := by
  cases hold : p.workers[w]? with
  | none => simp [work, hold] at h
  | some old =>
    simp only [work, hold] at h
    -- One case for each place where a worker stands; the look into the queue has three ends.
    cases old with
    | looking =>
      simp only [look, Option.some.injEq] at h
      split at h
      · obtain ⟨rfl, rfl⟩ := Prod.mk.inj h
        exact ⟨_, _, rfl, .takes ‹_›⟩
      · split at h
        · obtain ⟨rfl, rfl⟩ := Prod.mk.inj h
          exact ⟨_, _, rfl, .leaves ‹_› ‹_›⟩
        · obtain ⟨rfl, rfl⟩ := Prod.mk.inj h
          exact ⟨_, _, rfl, .sleeps ‹_› (Bool.eq_false_iff.2 ‹_›)⟩
    | running job =>
      obtain ⟨rfl, rfl⟩ := Prod.mk.inj (Option.some.inj h)
      exact ⟨_, _, rfl, .ends⟩
    | leaving job =>
      obtain ⟨rfl, rfl⟩ := Prod.mk.inj (Option.some.inj h)
      exact ⟨_, _, rfl, .uncounts⟩
    | counting job last =>
      obtain ⟨rfl, rfl⟩ := Prod.mk.inj (Option.some.inj h)
      exact ⟨_, _, rfl, .counts⟩
    | checking job =>
      obtain ⟨rfl, rfl⟩ := Prod.mk.inj (Option.some.inj h)
      exact ⟨_, _, rfl, .checks⟩
    | signalling job =>
      obtain ⟨rfl, rfl⟩ := Prod.mk.inj (Option.some.inj h)
      exact ⟨_, _, rfl, .signals⟩
    | asleep | exited => simp at h

/-- Only worker `w` changes its place. -/
theorem WorkMove.workers_eq (h : p.WorkMove w old new p' wakes) :
    p'.workers = p.workers.set w new := by
  cases h <;> rfl

/-- No `WorkMove` touches `capacity` and `closed`. -/
theorem WorkMove.bounds (h : p.WorkMove w old new p' wakes) :
    p'.capacity = p.capacity ∧ p'.closed = p.closed := by
  cases h <;> exact ⟨rfl, rfl⟩

/-- **Of the jobs** in `p.queue` a worker takes the oldest into its hands, or none. -/
theorem WorkMove.takes_or_keeps (h : p.WorkMove w old new p' wakes) :
    (∃ job, old = .looking ∧ new = .running job ∧ p.queue = job :: p'.queue)
      ∨ (new.running? = none ∧ p'.queue = p.queue) := by
  cases h with
  | takes hqueue => exact .inl ⟨_, rfl, rfl, hqueue⟩
  | leaves | sleeps | ends | uncounts | signals => exact .inr ⟨rfl, rfl⟩
  | counts => split <;> exact .inr ⟨rfl, rfl⟩
  | checks => split <;> exact .inr ⟨rfl, rfl⟩

/-- `push` puts the job in behind the others, if `p.queue.length < p.capacity`. -/
theorem eq_of_push {job : J} (h : p.push job = some p') : p.queue.length < p.capacity
    ∧ p' = { p with queue := p.queue ++ [job], depth := p.depth + 1 } := by
  unfold push at h
  split at h
  · exact ⟨‹_›, (Option.some.inj h).symm⟩
  · simp at h

/-- Waking finds that nobody sleeps, or puts one sleeper in the place `.looking`. -/
theorem rouse_cases {worker : Option Nat} (h : p.rouse worker = some p') :
    (p.anyAsleep = false ∧ p' = p)
      ∨ ∃ w, p.workers[w]? = some .asleep ∧ p' = p.place w .looking := by
  cases worker with
  | none =>
    simp only [rouse] at h
    split at h
    · simp at h
    · exact .inl ⟨Bool.eq_false_iff.2 ‹_›, (Option.some.inj h).symm⟩
  | some w =>
    simp only [rouse] at h
    split at h
    · exact .inr ⟨w, ‹_›, (Option.some.inj h).symm⟩
    · simp at h

end Pool

/-! ### Callers -/

namespace Caller

variable {old new : Caller J}

/-- `expire` concerns `awaitingIdle` and `awaitingJobs` only: who has not found the pool idle by the
    deadline goes on to `closing` or is told `drained false`, and who waits for the workers inside a
    job goes on to `taking`. -/
theorem expire_cases (h : old.expire = some new) :
    (old = .awaitingIdle true ∧ new = .closing)
      ∨ (old = .awaitingIdle false ∧ new = .drained false)
      ∨ (old = .awaitingJobs ∧ new = .taking) := by
  cases old with
  | awaitingIdle ending =>
    cases ending with
    | true => exact .inl ⟨rfl, (Option.some.inj h).symm⟩
    | false => exact .inr (.inl ⟨rfl, (Option.some.inj h).symm⟩)
  | awaitingJobs => exact .inr (.inr ⟨rfl, (Option.some.inj h).symm⟩)
  | _ => simp [expire] at h

/-- `afterExits` waits for the workers inside a job or goes on to `taking`. -/
theorem afterExits_cases (p : Pool J) :
    afterExits p = .awaitingJobs ∨ afterExits p = .taking := by
  unfold afterExits
  split
  · exact .inl rfl
  · exact .inr rfl

/-- `afterClear` waits for workers to leave, or is `afterExits`. -/
theorem afterClear_cases (p : Pool J) : afterClear p = .awaitingExits
    ∨ afterClear p = .awaitingJobs ∨ afterClear p = .taking := by
  unfold afterClear
  split
  · exact .inl rfl
  · exact .inr (afterExits_cases p)

end Caller

/-- The caller that a `Move` lets get on. -/
def Move.caller? : Move J → Option Nat
  | .work _ | .enter _ => none
  | .advance i | .rouse i _ | .expire i => some i

namespace Shared

/-- **How a caller gets on:** `s.CallerMove old new p` — a caller of `s` goes from `old` to `new`,
    which leaves the pool `p`. -/
inductive CallerMove (s : Shared J) : Caller J → Caller J → Pool J → Prop where
  /-- A submission sees whether the pool is `closed`. -/
  | looks {job : J} :
      CallerMove s (.submitting job) (if s.pool.closed then .submitted false else .inserting job)
        s.pool
  /-- There is no room for its job: `push` fails. -/
  | refused {job : J} (hfull : s.pool.push job = none) :
      CallerMove s (.inserting job) (.submitted false) s.pool
  /-- `push` puts its job in. -/
  | puts {job : J} {p : Pool J} (hpush : s.pool.push job = some p) :
      CallerMove s (.inserting job) .rousing p
  /-- `rouse` wakes a worker for it. -/
  | rouses {w : Option Nat} {p : Pool J} (hrouse : s.pool.rouse w = some p) :
      CallerMove s .rousing (.submitted true) p
  /-- The pool is idle: `depth` and `active` are both `0`. -/
  | finds {ending : Bool} (hidle : s.pool.depth = 0 ∧ s.pool.active = 0) :
      CallerMove s (.draining ending) (.onIdle ending) s.pool
  /-- The pool is not idle, and the caller waits. -/
  | waits {ending : Bool} (hbusy : ¬ (s.pool.depth = 0 ∧ s.pool.active = 0)) :
      CallerMove s (.draining ending) (.awaitingIdle ending) s.pool
  /-- A shutdown sees by `closed` whether there was one before. -/
  | begins : CallerMove s .ending (if s.pool.closed then .closing else .draining true) s.pool
  /-- It closes the pool. -/
  | closes : CallerMove s .closing .clearing s.pool.close
  /-- It drops what waits, with `clear`. -/
  | clears : CallerMove s .clearing (.afterClear s.pool.clear) s.pool.clear
  /-- It sees again whether only workers inside a job are left. -/
  | seesExits : CallerMove s .checkingExits (.afterClear s.pool) s.pool
  /-- It sees again whether any worker is left. -/
  | seesJobs : CallerMove s .checkingJobs (.afterExits s.pool) s.pool
  /-- It takes over the workers, `s.owned` of them. -/
  | takesOver : CallerMove s .taking (.inspecting s.owned 0) s.pool
  /-- It sees whether one of them has left. -/
  | inspects {w : Nat} {rest : List Nat} {n : Nat} :
      CallerMove s (.inspecting (w :: rest) n)
        (.inspecting rest (if s.exited w then n else n + 1)) s.pool
  /-- It has seen them all. -/
  | shutsDown {n : Nat} : CallerMove s (.inspecting [] n) (.ended n) s.pool
  /-- Its deadline passes: `expire`. -/
  | expires {old new : Caller J} (hexpire : old.expire = some new) : CallerMove s old new s.pool

/-- **What a move does:** the constructors of `Moves` say which part of `Shared` it touches. -/
inductive Moves (s : Shared J) : Move J → Shared J → Prop where
  /-- A worker makes a `WorkMove`. -/
  | work {w : Nat} {old new : Worker J} {p : Pool J} {wakes : Bool}
      (hold : s.pool.workers[w]? = some old) (hmove : s.pool.WorkMove w old new p wakes) :
      Moves s (.work w) (s.worked p wakes)
  /-- A caller comes, in the place `r.caller`. -/
  | enter (r : Request J) : Moves s (.enter r) { s with callers := s.callers ++ [r.caller] }
  /-- A caller makes a `CallerMove`. -/
  | caller {m : Move J} {i : Nat} {old new : Caller J} {p : Pool J} {owned : List Nat}
      (hmover : m.caller? = some i) (hold : s.callers[i]? = some old)
      (hmove : s.CallerMove old new p) : Moves s m ⟨p, s.callers.set i new, owned⟩

variable {s s' : Shared J} {m : Move J} {i : Nat}

/-- Every step `s.advance i` of a caller by itself is a `CallerMove`. -/
theorem callerMove_of_advance (h : s.advance i = some s') :
    ∃ old new p owned, s.callers[i]? = some old ∧ s.CallerMove old new p
      ∧ s' = ⟨p, s.callers.set i new, owned⟩ := by
  cases hold : s.callers[i]? with
  | none => simp [advance, hold] at h
  | some old =>
    simp only [advance, hold] at h
    -- One case for each place where a caller stands.
    cases old with
    | submitting job => exact ⟨_, _, _, _, rfl, .looks, (Option.some.inj h).symm⟩
    | inserting job =>
      cases hpush : s.pool.push job with
      | none =>
        simp only [hpush] at h
        exact ⟨_, _, _, _, rfl, .refused hpush, (Option.some.inj h).symm⟩
      | some p =>
        simp only [hpush] at h
        exact ⟨_, _, _, _, rfl, .puts hpush, (Option.some.inj h).symm⟩
    | draining ending =>
      by_cases hidle : s.pool.depth = 0 ∧ s.pool.active = 0
      · simp only [if_pos hidle] at h
        exact ⟨_, _, _, _, rfl, .finds hidle, (Option.some.inj h).symm⟩
      · simp only [if_neg hidle] at h
        exact ⟨_, _, _, _, rfl, .waits hidle, (Option.some.inj h).symm⟩
    | ending => exact ⟨_, _, _, _, rfl, .begins, (Option.some.inj h).symm⟩
    | closing => exact ⟨_, _, _, _, rfl, .closes, (Option.some.inj h).symm⟩
    | clearing => exact ⟨_, _, _, _, rfl, .clears, (Option.some.inj h).symm⟩
    | checkingExits => exact ⟨_, _, _, _, rfl, .seesExits, (Option.some.inj h).symm⟩
    | checkingJobs => exact ⟨_, _, _, _, rfl, .seesJobs, (Option.some.inj h).symm⟩
    | taking => exact ⟨_, _, _, _, rfl, .takesOver, (Option.some.inj h).symm⟩
    | inspecting ws n =>
      cases ws with
      | nil => exact ⟨_, _, _, _, rfl, .shutsDown, (Option.some.inj h).symm⟩
      | cons w rest => exact ⟨_, _, _, _, rfl, .inspects, (Option.some.inj h).symm⟩
    -- These wait, or are done.
    | rousing | submitted accepted | awaitingIdle ending | drained idle | awaitingExits
    | awaitingJobs | ended detached => simp at h

/-- **Every step** `s.step m = some s'` is one of the `Moves`. -/
theorem moves_of_step (h : s.step m = some s') : s.Moves m s' := by
  cases m with
  | work w =>
    obtain ⟨⟨p, wakes⟩, hwork, rfl⟩ := Option.map_eq_some_iff.1 h
    obtain ⟨old, new, hold, hmove⟩ := Pool.workMove_of_work hwork
    exact .work hold hmove
  | enter r =>
    obtain rfl := Option.some.inj h
    exact .enter r
  | advance i =>
    obtain ⟨old, new, p, owned, hold, hmove, rfl⟩ := callerMove_of_advance h
    exact .caller rfl hold hmove
  | rouse i w =>
    simp only [step] at h
    split at h
    · rename_i hold
      obtain ⟨p, hrouse, rfl⟩ := Option.map_eq_some_iff.1 h
      exact .caller rfl hold (.rouses hrouse)
    · simp at h
  | expire i =>
    obtain ⟨new, hexpire, rfl⟩ := Option.map_eq_some_iff.1 h
    obtain ⟨old, hold, hnew⟩ := Option.bind_eq_some_iff.1 hexpire
    exact .caller rfl hold (.expires hnew)

end Shared

end BatchJournal
