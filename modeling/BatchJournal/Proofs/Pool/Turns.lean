import BatchJournal.Proofs.Pool.Closing

namespace BatchJournal

/-!
# What a shutdown sees of a pool

A shutdown that has the end of a pool to itself sees three kinds of moves: workers get on, with
which it may be woken; it gets on itself; and others, who only wait until the pool is idle, leave
the pool alone.

* `Worker.toExit` — how far a worker outside any job is from its exit.
* `Pool.exists_outside`, `Pool.isActive_of_remains` — what the numbers tell of the workers.
* `Shared.CallerMove.goes_on` — a shutdown goes on through its places.
* `Shared.turn_of_step` — what a move comes to for the shutdown.
* `Shared.exists_hasClosed`, `Shared.owned_of_open` — who closed the pool, and who owns its workers.
-/

variable {J : Type}

/-! ### Workers on their way out -/

namespace Worker

/-- **How far from its exit** a worker outside any job is, over a closed and empty pool; `0` for one
    that is inside a job, sleeps or has left. -/
def toExit : Worker J → Nat
  | .looking => 1
  | .signalling _ => 2
  | .checking _ => 3
  | .counting .. => 4
  | .asleep | .running _ | .leaving _ | .exited => 0

/-- The job that is `running?` or `finishing?`. -/
def job? (worker : Worker J) : Option J := worker.running?.or worker.finishing?

theorem toExit_le (worker : Worker J) : worker.toExit ≤ 4 := by
  cases worker <;> simp [toExit]

/-- A worker that is not `isActive`, not `asleep` and has not left is on its way. -/
theorem toExit_pos {worker : Worker J} (hactive : worker.isActive = false)
    (hstays : worker.hasExited = false) (hawake : worker ≠ .asleep) : 0 < worker.toExit := by
  cases worker with
  | running | leaving => exact Bool.noConfusion hactive
  | exited => exact Bool.noConfusion hstays
  | asleep => exact absurd rfl hawake
  | looking | signalling | checking | counting => simp [toExit]

/-- Who `isActive` has not left. -/
theorem remains_of_isActive {worker : Worker J} (h : worker.isActive = true) :
    worker.remains = true := by
  cases worker <;> first | rfl | exact Bool.noConfusion h

/-- A worker that `isActive` is `running` a job or `leaving` one. -/
theorem exists_job_of_isActive {worker : Worker J} (h : worker.isActive = true) :
    ∃ job, worker = .running job ∨ worker = .leaving job := by
  cases worker with
  | running job => exact ⟨job, .inl rfl⟩
  | leaving job => exact ⟨job, .inr rfl⟩
  | _ => exact Bool.noConfusion h

end Worker

namespace Pool

variable {p p' : Pool J} {w : Nat} {old new : Worker J} {wakes : Bool}

/-- **More workers remain than are active:** one of them stands outside any job. -/
theorem exists_outside (h : p.workers.countP Worker.isActive < p.workers.countP Worker.remains) :
    ∃ (w : Nat) (worker : Worker J), p.workers[w]? = some worker ∧ worker.isActive = false
      ∧ worker.hasExited = false := by
  -- If all who remain were active there would be as many active ones at least.
  by_cases hall : ∀ worker ∈ p.workers, Worker.remains worker = true →
      Worker.isActive worker = true
  · have hle := List.countP_mono_left hall
    omega
  · simp only [not_forall] at hall
    obtain ⟨worker, hworker, hremains, hinactive⟩ := hall
    obtain ⟨w, hw⟩ := List.getElem?_of_mem hworker
    exact ⟨w, worker, hw, Bool.eq_false_iff.2 hinactive, by simpa [Worker.remains] using hremains⟩

/-- **No more workers remain than are active:** every worker with `remains` also has `isActive`. -/
theorem isActive_of_remains
    (h : p.workers.countP Worker.remains ≤ p.workers.countP Worker.isActive)
    {worker : Worker J} (hworker : worker ∈ p.workers) (hremains : worker.remains = true) :
    worker.isActive = true := by
  generalize p.workers = workers at h hworker
  -- Workers that are active remain, so where the counts agree they are the same ones.
  induction workers with
  | nil => exact absurd hworker List.not_mem_nil
  | cons first rest ih =>
    have hle : rest.countP Worker.isActive ≤ rest.countP Worker.remains :=
      List.countP_mono_left fun _ _ => Worker.remains_of_isActive
    have hfirst : first.isActive = true → first.remains = true := Worker.remains_of_isActive
    simp only [List.countP_cons] at h
    rcases List.mem_cons.1 hworker with rfl | hrest
    · cases hactive : worker.isActive with
      | true => rfl
      | false =>
        simp only [hremains, hactive, if_true, Bool.false_eq_true, if_false] at h
        omega
    · refine ih ?_ hrest
      cases hactive : first.isActive with
      | true =>
        simp only [hactive, hfirst hactive, if_true] at h
        omega
      | false =>
        simp only [hactive, Bool.false_eq_true, if_false] at h
        omega

/-- **A step towards the exit:** over a closed and empty pool a worker with `0 < toExit` leaves, or
    has less of it. -/
theorem WorkMove.nearer (h : p.WorkMove w old new p' wakes) (hclosed : p.closed = true)
    (hqueue : p.queue = []) (hold : 0 < old.toExit) :
    (new = .exited ∧ wakes = true) ∨ (0 < new.toExit ∧ new.toExit < old.toExit) := by
  cases h with
  | takes hnext => exact absurd (hqueue.symm.trans hnext) (List.cons_ne_nil _ _).symm
  | leaves => exact .inl ⟨rfl, rfl⟩
  | sleeps _ hopen => exact Bool.noConfusion (hopen.symm.trans hclosed)
  | ends | uncounts => simp [Worker.toExit] at hold
  | counts => split <;> simp [Worker.toExit]
  | checks => split <;> simp [Worker.toExit]
  | signals => simp [Worker.toExit]

/-- A worker that becomes `exited` wakes those who wait. -/
theorem WorkMove.wakes_of_exits (h : p.WorkMove w old new p' wakes) (hnew : new = .exited) :
    wakes = true := by
  cases h with
  | leaves => rfl
  | takes | sleeps | ends | uncounts | signals => simp at hnew
  | counts => split at hnew <;> simp at hnew
  | checks => split at hnew <;> simp at hnew

/-- **Over a closed and empty pool** a worker stays with its `job?`, then looks, then leaves. -/
theorem WorkMove.winds_down (h : p.WorkMove w old new p' wakes) (hclosed : p.closed = true)
    (hqueue : p.queue = []) {job : J} (hold : old.job? = some job ∨ old = .looking) :
    new.hasExited = true ∨ new.job? = some job ∨ new = .looking := by
  cases h with
  | takes hnext => exact absurd (hqueue.symm.trans hnext) (List.cons_ne_nil _ _).symm
  | leaves => exact .inl rfl
  | sleeps _ hopen => exact Bool.noConfusion (hopen.symm.trans hclosed)
  | ends | uncounts => exact .inr (.inl (hold.resolve_right nofun))
  | signals => exact .inr (.inr rfl)
  | counts =>
    split
    · exact .inr (.inl (hold.resolve_right nofun))
    · exact .inr (.inr rfl)
  | checks =>
    split
    · exact .inr (.inl (hold.resolve_right nofun))
    · exact .inr (.inr rfl)

/-- A worker that is found to have left by its step is at `exited` by it. -/
theorem WorkMove.eq_exited (h : p.WorkMove w old new p' wakes) (hold : p.workers[w]? = some old)
    (hexited : p'.workers[w]?.any Worker.hasExited = true) : new = .exited := by
  rw [h.workers_eq, List.getElem?_set_self (List.getElem?_eq_some_iff.1 hold).1] at hexited
  cases new with
  | exited => rfl
  | _ => exact Bool.noConfusion hexited

/-- A worker that has left has no `WorkMove`. -/
theorem WorkMove.stays (h : p.WorkMove w old new p' wakes) : old.hasExited = false := by
  cases h <;> rfl

/-- Over an empty pool a worker that wakes nobody keeps `active < remaining`. -/
theorem WorkMove.short (h : p.WorkMove w old new p' wakes) (hqueue : p.queue = [])
    (hwakes : wakes = false) (hshort : p.active < p.remaining) : p'.active < p'.remaining := by
  cases h with
  | takes hnext => exact absurd (hqueue.symm.trans hnext) (List.cons_ne_nil _ _).symm
  | leaves | signals => exact Bool.noConfusion hwakes
  | uncounts => exact Nat.lt_of_le_of_lt (Nat.sub_le _ _) hshort
  | sleeps | ends | counts | checks => exact hshort

end Pool

/-! ### Callers beside a shutdown -/

namespace Caller

/-- The caller has nothing to do with jobs that come in or with the end of the pool: it is through,
    or waits until the pool is idle. -/
def isBeside : Caller J → Bool
  | .submitted _ | .drained _ | .ended _ | .draining false | .awaitingIdle false => true
  | _ => false

/-- The caller has been at `awaitingExits`, the wait that has no deadline, or has passed it by. -/
def hasSeenExits : Caller J → Bool
  | .awaitingJobs | .checkingJobs | .taking | .inspecting .. | .ended _ => true
  | _ => false

/-- The caller is somewhere on its way through a shutdown, or is `ended`. -/
def isShuttingDown : Caller J → Bool
  | .submitting _ | .inserting _ | .rousing | .submitted _ | .draining false | .awaitingIdle false
  | .drained _ => false
  | _ => true

/-- The workers that a shutdown has yet to see, and how many it saw that had not left. -/
def inspected? : Caller J → Option (List Nat × Nat)
  | .inspecting ws n => some (ws, n)
  | .ended n => some ([], n)
  | _ => none

/-- `wake` leaves a shutdown as far as it was. -/
theorem wake_progress (c : Caller J) : c.wake.isShuttingDown = c.isShuttingDown
    ∧ c.wake.hasSeenExits = c.hasSeenExits ∧ c.wake.inspected? = c.inspected? := by
  cases c with
  | awaitingIdle ending => cases ending <;> exact ⟨rfl, rfl, rfl⟩
  | _ => exact ⟨rfl, rfl, rfl⟩

/-- Nobody is woken to `awaitingExits`. -/
theorem wake_ne_awaitingExits (c : Caller J) : c.wake ≠ .awaitingExits := by
  cases c <;> simp [wake]

theorem isBeside_wake {c : Caller J} (h : c.isBeside = true) : c.wake.isBeside = true := by
  cases c with
  | awaitingIdle ending =>
    cases ending with
    | false => rfl
    | true => exact Bool.noConfusion h
  | _ => exact h

/-- Who `hasSeenExits` has dropped what waited before. -/
theorem hasCleared_of_hasSeenExits {c : Caller J} (h : c.hasSeenExits = true) :
    c.hasCleared = true := by
  cases c with
  | awaitingJobs | checkingJobs | taking | inspecting | ended => rfl
  | _ => exact Bool.noConfusion h

end Caller

/-- The move is not that of a caller who comes to submit a job or to shut the pool down. -/
def Move.isBeside : Move J → Bool
  | .enter (.submit _) | .enter .shutDown => false
  | _ => true

/-- It is a move of worker `w`. -/
def Move.isWorkOf (w : Nat) : Move J → Bool
  | .work v => v == w
  | _ => false

namespace Shared

variable {s s' : Shared J} {c old new : Caller J} {p : Pool J} {m : Move J} {i : Nat}

/-- Every caller but `i` is beside a shutdown. -/
def Alone (s : Shared J) (i : Nat) : Prop :=
  ∀ j c, s.callers[j]? = some c → j ≠ i → c.isBeside = true

/-- What a shutdown sees in a move: a worker, and whether it is `exited`. -/
def inspection (s : Shared J) (m : Move J) : List (Nat × Bool) :=
  match m.caller?.bind (s.callers[·]?) with
  | some (.inspecting (w :: _) _) => [(w, s.exited w)]
  | _ => []

/-- Callers with `isBeside` keep it and leave the pool alone. -/
theorem CallerMove.beside (h : s.CallerMove old new p) (hbeside : old.isBeside = true) :
    p = s.pool ∧ new.isBeside = true := by
  cases h with
  | @finds ending | @waits ending =>
    cases ending with
    | false => exact ⟨rfl, rfl⟩
    | true => exact Bool.noConfusion hbeside
  | expires hexpire =>
    rcases Caller.expire_cases hexpire with ⟨rfl, rfl⟩ | ⟨rfl, rfl⟩ | ⟨rfl, rfl⟩
    · exact Bool.noConfusion hbeside
    · exact ⟨rfl, rfl⟩
    · exact Bool.noConfusion hbeside
  | shutsDown | looks | refused | puts | rouses | begins | closes | clears | seesExits | seesJobs
  | takesOver | inspects => exact Bool.noConfusion hbeside

/-- **Workers change hands** only when a shutdown takes them over: `owned` stays, or a caller at
    `taking` empties it. -/
theorem owned_of_step (h : s.step m = some s') : s'.owned = s.owned
    ∨ ∃ j, m.caller? = some j ∧ s.callers[j]? = some .taking ∧ s'.owned = [] := by
  cases m with
  | work w =>
    obtain ⟨_, -, rfl⟩ := Option.map_eq_some_iff.1 h
    exact .inl rfl
  | enter r =>
    obtain rfl := Option.some.inj h
    exact .inl rfl
  | rouse j w =>
    simp only [step] at h
    split at h
    · obtain ⟨_, -, rfl⟩ := Option.map_eq_some_iff.1 h
      exact .inl rfl
    · simp at h
  | expire j =>
    obtain ⟨_, -, rfl⟩ := Option.map_eq_some_iff.1 h
    exact .inl rfl
  -- Only the caller that takes over the workers changes who owns them.
  | advance j =>
    simp only [step, advance] at h
    split at h
    case h_2 =>
      split at h
      · obtain rfl := Option.some.inj h
        exact .inl rfl
      · obtain rfl := Option.some.inj h
        exact .inl rfl
    case h_9 hplace =>
      obtain rfl := Option.some.inj h
      exact .inr ⟨j, rfl, hplace, rfl⟩
    all_goals first
      | obtain rfl := Option.some.inj h; exact .inl rfl
      | simp at h

/-- **A shutdown goes on** through its places, and but for the end of its first wait it closes the
    pool, drops what waits, or leaves the pool alone.  It is `isShuttingDown` all the way. -/
theorem CallerMove.goes_on (h : s.CallerMove old new p) (hold : old.isShuttingDown = true) :
    new.isShuttingDown = true
      ∧ ((old ≠ .closing ∧ old ≠ .clearing ∧ p = s.pool)
        ∨ (old = .closing ∧ new = .clearing ∧ p = s.pool.close)
        ∨ (old = .clearing ∧ p = s.pool.clear)) := by
  -- A shutdown goes on from place to place and leaves the pool alone but for its two acts.
  have hclear : ∀ q : Pool J, (Caller.afterClear q).isShuttingDown = true := by
    intro q
    rcases Caller.afterClear_cases q with heq | heq | heq <;> rw [heq] <;> rfl
  cases h with
  | looks | refused | puts | rouses => exact Bool.noConfusion hold
  | @finds ending | @waits ending =>
    cases ending with
    | false => exact Bool.noConfusion hold
    | true => exact ⟨rfl, .inl ⟨nofun, nofun, rfl⟩⟩
  | begins => split <;> exact ⟨rfl, .inl ⟨nofun, nofun, rfl⟩⟩
  | closes => exact ⟨rfl, .inr (.inl ⟨rfl, rfl, rfl⟩)⟩
  | clears => exact ⟨hclear _, .inr (.inr ⟨rfl, rfl⟩)⟩
  | seesExits => exact ⟨hclear _, .inl ⟨nofun, nofun, rfl⟩⟩
  | seesJobs =>
    rcases Caller.afterExits_cases s.pool with heq | heq <;> rw [heq] <;>
      exact ⟨rfl, .inl ⟨nofun, nofun, rfl⟩⟩
  | takesOver | inspects | shutsDown => exact ⟨rfl, .inl ⟨nofun, nofun, rfl⟩⟩
  | expires hexpire =>
    rcases Caller.expire_cases hexpire with ⟨rfl, rfl⟩ | ⟨rfl, rfl⟩ | ⟨rfl, rfl⟩
    · exact ⟨rfl, .inl ⟨nofun, nofun, rfl⟩⟩
    · exact Bool.noConfusion hold
    · exact ⟨rfl, .inl ⟨nofun, nofun, rfl⟩⟩

/-- **Into and out of the first wait:** a shutdown comes to `awaitingExits` if `active < remaining`,
    and passes it if not. -/
theorem CallerMove.first_wait (h : s.CallerMove old new p) :
    (new = .awaitingExits → p.active < p.remaining)
      ∧ (new.hasSeenExits = true → old.hasSeenExits = false → p.remaining ≤ p.active) := by
  -- `afterClear` compares the two counters, so what it answers tells how they stand.
  have hafter : ∀ q : Pool J, (Caller.afterClear q = .awaitingExits → q.active < q.remaining)
      ∧ ((Caller.afterClear q).hasSeenExits = true → q.remaining ≤ q.active) := by
    intro q
    unfold Caller.afterClear
    split
    · exact ⟨fun _ => ‹_›, fun hseen => Bool.noConfusion hseen⟩
    · refine ⟨fun heq => ?_, fun _ => Nat.not_lt.1 ‹_›⟩
      rcases Caller.afterExits_cases q with hcase | hcase <;> rw [hcase] at heq <;> simp at heq
  cases h with
  | clears => exact ⟨(hafter _).1, fun hnew _ => (hafter _).2 hnew⟩
  | seesExits => exact ⟨(hafter _).1, fun hnew _ => (hafter _).2 hnew⟩
  | seesJobs =>
    refine ⟨fun heq => ?_, fun _ hold => Bool.noConfusion hold⟩
    rcases Caller.afterExits_cases s.pool with hcase | hcase <;> rw [hcase] at heq <;> simp at heq
  | looks | begins => split <;> exact ⟨nofun, fun hnew => Bool.noConfusion hnew⟩
  | @finds ending => cases ending <;> exact ⟨nofun, fun hnew => Bool.noConfusion hnew⟩
  | refused | puts | rouses | waits | closes => exact ⟨nofun, fun hnew => Bool.noConfusion hnew⟩
  | takesOver | inspects | shutsDown => exact ⟨nofun, fun _ hold => Bool.noConfusion hold⟩
  | expires hexpire =>
    rcases Caller.expire_cases hexpire with ⟨rfl, rfl⟩ | ⟨rfl, rfl⟩ | ⟨rfl, rfl⟩
    · exact ⟨nofun, fun hnew => Bool.noConfusion hnew⟩
    · exact ⟨nofun, fun hnew => Bool.noConfusion hnew⟩
    · exact ⟨nofun, fun _ hold => Bool.noConfusion hold⟩

/-- **A shutdown goes through the workers** that it took over, one by one: `inspected?` begins with
    `s.owned` and loses its head in each step. -/
theorem CallerMove.inspected (h : s.CallerMove old new p) {ws : List Nat} {n : Nat}
    (hnew : new.inspected? = some (ws, n)) :
    (old = .taking ∧ ws = s.owned ∧ n = 0)
      ∨ (∃ w n', old = .inspecting (w :: ws) n' ∧ n = if s.exited w then n' else n' + 1)
      ∨ (old = .inspecting [] n ∧ ws = []) := by
  -- Nothing was inspected before the workers were taken over.
  have hafter : ∀ q : Pool J, (Caller.afterClear q).inspected? = none := by
    intro q
    rcases Caller.afterClear_cases q with heq | heq | heq <;> rw [heq] <;> rfl
  cases h with
  | takesOver =>
    obtain ⟨rfl, rfl⟩ := Prod.mk.inj (Option.some.inj hnew)
    exact .inl ⟨rfl, rfl, rfl⟩
  | @inspects w rest n' =>
    obtain ⟨rfl, rfl⟩ := Prod.mk.inj (Option.some.inj hnew)
    exact .inr (.inl ⟨w, n', rfl, rfl⟩)
  | shutsDown =>
    obtain ⟨rfl, rfl⟩ := Prod.mk.inj (Option.some.inj hnew)
    exact .inr (.inr ⟨rfl, rfl⟩)
  | clears => exact nomatch (hafter _).symm.trans hnew
  | seesExits => exact nomatch (hafter _).symm.trans hnew
  | seesJobs =>
    rcases Caller.afterExits_cases s.pool with heq | heq <;> rw [heq] at hnew <;> exact nomatch hnew
  | looks | begins => split at hnew <;> exact nomatch hnew
  | @finds ending => cases ending <;> exact nomatch hnew
  | refused | puts | rouses | waits | closes => exact nomatch hnew
  | expires hexpire =>
    rcases Caller.expire_cases hexpire with ⟨rfl, rfl⟩ | ⟨rfl, rfl⟩ | ⟨rfl, rfl⟩ <;>
      exact nomatch hnew

/-- A shutdown with nothing in `inspected?` did not take the workers over before. -/
theorem CallerMove.uninspected (h : s.CallerMove old new p) (hnew : new.inspected? = none) :
    old.inspected? = none ∧ old ≠ .taking := by
  cases h with
  | takesOver | inspects | shutsDown => exact nomatch hnew
  | looks | refused | puts | rouses | finds | waits | begins | closes | clears | seesExits
  | seesJobs => exact ⟨rfl, nofun⟩
  | expires hexpire =>
    rcases Caller.expire_cases hexpire with ⟨rfl, -⟩ | ⟨rfl, -⟩ | ⟨rfl, -⟩ <;> exact ⟨rfl, nofun⟩

/-! ### What a shutdown sees of a move -/

/-- **What a move comes to** for a shutdown that stands at `c`: a step of a worker, a step of its
    own, or somebody else's who leaves the pool alone. -/
inductive Turn (s : Shared J) (i : Nat) (c : Caller J) (m : Move J) (s' : Shared J) : Prop where
  /-- Worker `w` gets on, with which the shutdown may be woken. -/
  | work {w : Nat} {old new : Worker J} {wakes : Bool} (hmover : m = .work w)
      (hold : s.pool.workers[w]? = some old) (hmove : s.pool.WorkMove w old new s'.pool wakes)
      (hplace : s'.callers[i]? = some (if wakes then c.wake else c)) (howned : s'.owned = s.owned)
  /-- Somebody comes or gets on beside the shutdown. -/
  | beside (hmover : ∀ w, m ≠ .work w) (hpool : s'.pool = s.pool)
      (hplace : s'.callers[i]? = some c) (howned : s'.owned = s.owned)
      (hunseen : s.inspection m = [])
  /-- The shutdown gets on, by a `CallerMove`. -/
  | own {new : Caller J} (hmover : m.caller? = some i) (hmove : s.CallerMove c new s'.pool)
      (hplace : s'.callers[i]? = some new) (howned : c ≠ .taking → s'.owned = s.owned)

/-- **Every move is one of these turns** if nobody else comes to submit or to shut down. -/
theorem turn_of_step (halone : s.Alone i) (hplace : s.callers[i]? = some c)
    (hbeside : m.isBeside = true) (hstep : s.step m = some s') :
    s'.Alone i ∧ s.Turn i c m s' := by
  have hlt : i < s.callers.length := (List.getElem?_eq_some_iff.1 hplace).1
  have howned := owned_of_step hstep
  cases moves_of_step hstep with
  | @work w old new p wakes hold hmove =>
    refine ⟨fun j c' hc' hne => ?_, .work rfl hold hmove ?_ rfl⟩
    · cases wakes with
      | false => exact halone j c' hc' hne
      | true =>
        simp only [worked, if_true, List.getElem?_map] at hc'
        obtain ⟨c₀, hc₀, rfl⟩ := Option.map_eq_some_iff.1 hc'
        exact Caller.isBeside_wake (halone j c₀ hc₀ hne)
    · cases wakes with
      | false => exact hplace
      | true => simp only [worked, if_true, List.getElem?_map, hplace, Option.map_some]
  | enter r =>
    refine ⟨fun j c' hc' hne => ?_, .beside (fun w heq => ?_) rfl ?_ rfl rfl⟩
    · rcases Nat.lt_or_ge j s.callers.length with hj | hj
      · rw [List.getElem?_append_left hj] at hc'
        exact halone j c' hc' hne
      · rw [List.getElem?_append_right hj] at hc'
        obtain rfl := List.mem_singleton.1 (List.mem_of_getElem? hc')
        cases r with
        | drain => rfl
        | submit | shutDown => exact Bool.noConfusion hbeside
    · simp at heq
    · rw [List.getElem?_append_left hlt]
      exact hplace
  | @caller _ j old new p owned hmover hold hmove =>
    have hj : j < s.callers.length := (List.getElem?_eq_some_iff.1 hold).1
    -- Only the one who takes the workers over changes who owns them.
    have hkept : old ≠ .taking → owned = s.owned := by
      intro hne
      rcases howned with heq | ⟨k, hk, htaking, -⟩
      · exact heq
      · obtain rfl := Option.some.inj (hmover.symm.trans hk)
        exact absurd (Option.some.inj (hold.symm.trans htaking)) hne
    by_cases hij : j = i
    · subst hij
      obtain rfl := Option.some.inj (hold.symm.trans hplace)
      refine ⟨fun k c' hc' hne => ?_, .own hmover hmove (List.getElem?_set_self hj) hkept⟩
      simp only [List.getElem?_set_ne hne.symm] at hc'
      exact halone k c' hc' hne
    · have hold' := halone j old hold hij
      obtain ⟨rfl, hnew⟩ := hmove.beside hold'
      have hnotTaking : old ≠ .taking := by
        rintro rfl
        exact Bool.noConfusion hold'
      refine ⟨fun k c' hc' hne => ?_, .beside ?_ rfl ?_ (hkept hnotTaking) ?_⟩
      · by_cases hjk : j = k
        · subst hjk
          rw [List.getElem?_set_self hj] at hc'
          exact Option.some.inj hc' ▸ hnew
        · rw [List.getElem?_set_ne hjk] at hc'
          exact halone k c' hc' hne
      · rintro w rfl
        simp [Move.caller?] at hmover
      · rw [List.getElem?_set_ne hij]
        exact hplace
      · simp only [inspection, hmover, Option.bind_some, hold]
        cases old with
        | inspecting => exact Bool.noConfusion hold'
        | _ => rfl

/-! ### Runs -/

/-- The state after some moves, each of them possible when its turn comes. -/
def run (s : Shared J) : List (Move J) → Option (Shared J)
  | [] => some s
  | m :: rest => (s.step m).bind (·.run rest)

/-- **What a shutdown sees** on its way through the workers: `inspection` of each move. -/
def inspections (s : Shared J) : List (Move J) → List (Nat × Bool)
  | [] => []
  | m :: rest =>
    s.inspection m ++ match s.step m with | some s' => s'.inspections rest | none => []

section Runs

variable {begun : Shared J} {moves : List (Move J)}

theorem run_append (moves moves' : List (Move J)) :
    s.run (moves ++ moves') = (s.run moves).bind (·.run moves') := by
  induction moves generalizing s with
  | nil => rfl
  | cons m moves ih =>
    simp only [List.cons_append, run]
    cases s.step m with
    | none => rfl
    | some s₁ => exact ih

theorem run_concat : s.run (moves ++ [m]) = some s'
    ↔ ∃ s₁, s.run moves = some s₁ ∧ s₁.step m = some s' := by
  rw [run_append, Option.bind_eq_some_iff]
  simp [run]

theorem inspections_concat (h : begun.run moves = some s) (m : Move J) :
    begun.inspections (moves ++ [m]) = begun.inspections moves ++ s.inspection m := by
  induction moves generalizing begun with
  | nil =>
    obtain rfl := Option.some.inj h
    simp only [List.nil_append, inspections]
    cases begun.step m <;> simp
  | cons m' moves ih =>
    obtain ⟨s₁, hstep, hrun⟩ := Option.bind_eq_some_iff.1 h
    simp only [List.cons_append, inspections, hstep, ih hrun, List.append_assoc]

/-- `hasClosed` is for good. -/
theorem CallerMove.hasClosed_mono (h : s.CallerMove old new p) (hold : old.hasClosed = true) :
    new.hasClosed = true := by
  have hafter : ∀ q : Pool J, (Caller.afterClear q).hasClosed = true := by
    intro q
    rcases Caller.afterClear_cases q with heq | heq | heq <;> rw [heq] <;> rfl
  cases h with
  | clears => exact hafter _
  | seesExits => exact hafter _
  | seesJobs => rcases Caller.afterExits_cases s.pool with heq | heq <;> rw [heq] <;> rfl
  | takesOver | inspects | shutsDown | closes => rfl
  | looks | refused | puts | rouses | finds | waits | begins => exact Bool.noConfusion hold
  | expires hexpire =>
    rcases Caller.expire_cases hexpire with ⟨rfl, rfl⟩ | ⟨rfl, rfl⟩ | ⟨rfl, rfl⟩
    · exact Bool.noConfusion hold
    · exact Bool.noConfusion hold
    · rfl

/-- Whose step makes an open pool `closed` has closed it. -/
theorem CallerMove.hasClosed_of_closes (h : s.CallerMove old new p) (hclosed : p.closed = true)
    (hopen : s.pool.closed = false) : new.hasClosed = true := by
  rcases h.effect .empty with ⟨job, -, hpush, -⟩ | ⟨rfl, -⟩ | ⟨-, rfl, -⟩ | ⟨-, -, -, hp, -⟩
  · obtain ⟨-, rfl⟩ := Pool.eq_of_push hpush
    exact Bool.noConfusion (hopen.symm.trans hclosed)
  · rcases (h.goes_on rfl).2 with ⟨hne, -⟩ | ⟨-, rfl, -⟩ | ⟨heq, -⟩
    · exact absurd rfl hne
    · rfl
    · exact nomatch heq
  · exact Bool.noConfusion (hopen.symm.trans hclosed)
  · rw [hp] at hclosed
    exact Bool.noConfusion (hopen.symm.trans hclosed)

/-- **A closed pool** was closed by some caller that `hasClosed`. -/
theorem exists_hasClosed {workers capacity : Nat} {l : Ledger J} (h : s.Recorded workers capacity l)
    (hclosed : s.pool.closed = true) : ∃ (i : Nat) (c : Caller J),
      s.callers[i]? = some c ∧ c.hasClosed = true := by
  -- Induction on the run: the pool closes by the step of a caller, and no caller forgets that it
  -- closed it.
  induction h with
  | refl => exact Bool.noConfusion hclosed
  | @step s₁ s₂ l₁ m _ hstep how ih =>
    cases moves_of_step hstep with
    | @work w old new p wakes hold hmove =>
      obtain ⟨i, c, hc, hmark⟩ := ih (hmove.bounds.2.symm.trans hclosed)
      cases wakes with
      | false => exact ⟨i, c, hc, hmark⟩
      | true =>
        refine ⟨i, c.wake, ?_, c.wake_marks.1.trans hmark⟩
        simp only [worked, if_true, List.getElem?_map, hc, Option.map_some]
    | enter r =>
      obtain ⟨i, c, hc, hmark⟩ := ih hclosed
      refine ⟨i, c, ?_, hmark⟩
      rw [List.getElem?_append_left (List.getElem?_eq_some_iff.1 hc).1]
      exact hc
    | @caller _ j old new p owned hmover hold hmove =>
      have hself := List.getElem?_set_self (a := new) (List.getElem?_eq_some_iff.1 hold).1
      by_cases hbefore : s₁.pool.closed = true
      · obtain ⟨i, c, hc, hmark⟩ := ih hbefore
        by_cases hij : j = i
        · subst hij
          obtain rfl := Option.some.inj (hold.symm.trans hc)
          exact ⟨j, new, hself, hmove.hasClosed_mono hmark⟩
        · exact ⟨i, c, (List.getElem?_set_ne hij).trans hc, hmark⟩
      · exact ⟨j, new, hself, hmove.hasClosed_of_closes hclosed (Bool.eq_false_iff.2 hbefore)⟩

/-- **Nobody has taken over** the workers of an open pool: `owned` has them all. -/
theorem owned_of_open {workers capacity : Nat} {l : Ledger J} (h : s.Recorded workers capacity l)
    (hopen : s.pool.closed = false) : s.owned = List.range workers := by
  induction h with
  | refl => rfl
  | @step s₁ s₂ l₁ m hbefore hstep how ih =>
    have hcloses := Ledger.Closes.of_recorded hbefore
    have hopen₁ : s₁.pool.closed = false := by
      cases hclosed₁ : s₁.pool.closed with
      | false => rfl
      | true =>
        have hclosed₂ := (late_of_moves (l := l₁) (moves_of_step hstep) hclosed₁ how).1
        exact Bool.noConfusion (hopen.symm.trans hclosed₂)
    rcases owned_of_step hstep with heq | ⟨j, -, htaking, -⟩
    · exact heq.trans (ih hopen₁)
    · have hclosed₁ := hcloses.closed _ (List.mem_of_getElem? htaking) rfl
      exact Bool.noConfusion (hopen₁.symm.trans hclosed₁)

end Runs

end Shared

end BatchJournal
