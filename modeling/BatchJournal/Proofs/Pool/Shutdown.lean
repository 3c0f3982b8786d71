import BatchJournal.Proofs.Pool.Winding

namespace BatchJournal

/-!
# A shutdown misses no wakeup

A shutdown waits without a deadline over a closed and empty pool in which nobody sleeps and more
workers remain than are active.  So some worker stands outside any job, and nothing but its own next
steps is between it and its exit, which wakes the shutdown.

* `Shared.Winding.woken_within` — however the others move, the wait is over when that worker has
  done its steps.
* `Shared.Winding.clearing_of_asleep` — who sleeps when the flag is set is about to be woken.
* `Shared.misses_no_wakeup` — the wait is ended in time, no worker sleeps it through, and the number
  of detached workers is that of those who were seen before their exit.
-/

variable {J : Type}

namespace Shared

variable {workers capacity : Nat} {s s' begun : Shared J} {c : Caller J} {m : Move J}
  {moves : List (Move J)} {l : Ledger J} {i : Nat}

namespace Winding

/-- **While the shutdown is `awaitingExits`** some worker stands outside any job and is on its way
    out: `0 < worker.toExit`. -/
theorem exists_leaving (h : Winding workers capacity begun i moves s .awaitingExits) :
    ∃ (w : Nat) (worker : Worker J), s.pool.workers[w]? = some worker ∧ worker.isActive = false
      ∧ worker.hasExited = false ∧ worker ≠ .asleep := by
  obtain ⟨hactive, hremaining⟩ := h.counts
  have hshort := h.short rfl
  rw [hactive, hremaining] at hshort
  obtain ⟨w, worker, hworker, hinactive, hstays⟩ := Pool.exists_outside hshort
  refine ⟨w, worker, hworker, hinactive, hstays, ?_⟩
  rintro rfl
  exact h.awake rfl (List.mem_of_getElem? hworker)

/-- A shutdown that is `awaitingExits` has no step of its own. -/
theorem step_eq_none (h : Winding workers capacity begun i moves s .awaitingExits)
    (hmover : m.caller? = some i) : s.step m = none := by
  cases m with
  | work | enter => exact nomatch hmover
  | advance | rouse | expire =>
    obtain rfl := Option.some.inj hmover
    simp [Shared.step, advance, h.place, Caller.expire]

/-- **Any move** wakes a shutdown that is `awaitingExits`, or leaves it there with the worker no
    further from its exit by `toExit` than before, and nearer if `m.isWorkOf w`. -/
theorem woken_or_nearer (h : Winding workers capacity begun i moves s .awaitingExits) {w : Nat}
    {worker : Worker J} (hworker : s.pool.workers[w]? = some worker) (hpos : 0 < worker.toExit)
    (hbeside : m.isBeside = true) (hstep : s.step m = some s') :
    s'.callers[i]? = some .checkingExits
      ∨ (Winding workers capacity begun i (moves ++ [m]) s' .awaitingExits
        ∧ ∃ next, s'.pool.workers[w]? = some next ∧ 0 < next.toExit
          ∧ next.toExit ≤ worker.toExit - (Move.isWorkOf w m).toNat) := by
  obtain ⟨halone, hturn⟩ := turn_of_step h.alone h.place hbeside hstep
  cases hturn with
  -- The worker itself moves, another one does, or it is none of the workers.
  | @work v old new wakes hmover hold hmove hplace howned =>
    subst hmover
    cases wakes with
    | true => exact .inl hplace
    | false =>
      refine .inr ⟨h.after_workMove hstep halone hold hmove hplace howned, ?_⟩
      rw [hmove.workers_eq]
      by_cases hvw : v = w
      · subst hvw
        obtain rfl := Option.some.inj (hold.symm.trans hworker)
        -- A worker that gets through wakes the callers, which this move did not; so it came nearer.
        rcases hmove.nearer (h.closed rfl) (h.emptied rfl) hpos with ⟨-, hwakes⟩ | ⟨hnew, hlt⟩
        · exact Bool.noConfusion hwakes
        · refine ⟨new, List.getElem?_set_self (List.getElem?_eq_some_iff.1 hold).1, hnew, ?_⟩
          simp only [Move.isWorkOf, beq_self_eq_true, Bool.toNat_true]
          omega
      · refine ⟨worker, (List.getElem?_set_ne hvw).trans hworker, hpos, ?_⟩
        simp only [Move.isWorkOf, beq_eq_false_iff_ne.2 hvw, Bool.toNat_false]
        omega
  | beside hmover hpool hplace howned hunseen =>
    refine .inr ⟨h.after_other hstep halone hpool hplace howned hunseen, worker, ?_, hpos, ?_⟩
    · rw [hpool]
      exact hworker
    · cases m with
      | work v => exact absurd rfl (hmover v)
      | _ => exact Nat.le_refl _
  -- The caller itself waits and has no step.
  | own hmover =>
    rw [h.step_eq_none hmover] at hstep
    exact nomatch hstep

/-- **The worker on its way out** wakes the shutdown in `worker.toExit` steps of its own, unless
    somebody else has done so before. -/
theorem woken_within (h : Winding workers capacity begun i moves s .awaitingExits) {w : Nat}
    {worker : Worker J} (hworker : s.pool.workers[w]? = some worker) (hpos : 0 < worker.toExit)
    {more : List (Move J)} (hbeside : ∀ m ∈ more, m.isBeside = true)
    (hrun : s.run more = some s') (hcount : worker.toExit ≤ more.countP (Move.isWorkOf w)) :
    ∃ front s₁, front <+: more ∧ s.run front = some s₁
      ∧ s₁.callers[i]? = some .checkingExits := by
  -- Induction on the moves: each of the worker's own brings it nearer to its end, until it wakes
  -- the caller.
  induction more generalizing moves s worker with
  | nil =>
    simp only [List.countP_nil] at hcount
    omega
  | cons m more ih =>
    obtain ⟨s₁, hstep, hrest⟩ := Option.bind_eq_some_iff.1 hrun
    have hmore := fun m' hm' => hbeside m' (List.mem_cons_of_mem m hm')
    rcases h.woken_or_nearer hworker hpos (hbeside m List.mem_cons_self) hstep with
      hwoken | ⟨hwaits, next, hnext, hnextPos, hnextLe⟩
    · exact ⟨[m], s₁, List.prefix_append [m] more, by simp [Shared.run, hstep], hwoken⟩
    · have hcount' : next.toExit ≤ more.countP (Move.isWorkOf w) := by
        simp only [List.countP_cons] at hcount
        cases hwork : Move.isWorkOf w m <;> simp [hwork] at hcount hnextLe <;> omega
      obtain ⟨front, s₂, hfront, hrun₂, hwoken⟩ := ih hwaits hnext hnextPos hmore hrest hcount'
      refine ⟨m :: front, s₂, List.cons_prefix_cons.2 ⟨rfl, hfront⟩, ?_, hwoken⟩
      simp only [Shared.run, hstep, Option.bind_some, hrun₂]

/-- **A sleeper in a closed pool** is about to be woken: the shutdown is at `clearing`. -/
theorem clearing_of_asleep (h : Winding workers capacity begun i moves s c)
    (hclosed : s.pool.closed = true) (hasleep : .asleep ∈ s.pool.workers) : c = .clearing := by
  obtain ⟨l, hrecorded⟩ := h.recorded
  have hcloses := Ledger.Closes.of_recorded hrecorded
  obtain ⟨j, c', hc', hmark⟩ := exists_hasClosed hrecorded hclosed
  have hpending : c'.hasCleared = false := by
    cases hcleared : c'.hasCleared with
    | false => rfl
    | true => exact absurd hasleep (hcloses.awake ⟨c', List.mem_of_getElem? hc', hcleared⟩)
  by_cases hj : j = i
  · subst hj
    obtain rfl := Option.some.inj (hc'.symm.trans h.place)
    cases c' with
    | clearing => rfl
    | _ => first | exact Bool.noConfusion hmark | exact Bool.noConfusion hpending
  · -- Beside the shutdown there are only those that came to their end.
    have hbeside := h.alone j c' hc' hj
    cases c' with
    | clearing => exact Bool.noConfusion hbeside
    | _ => first | exact Bool.noConfusion hmark | exact Bool.noConfusion hpending

/-- **Nobody falls asleep** in a closed pool: who is `asleep` after a step was so before. -/
theorem asleep_of_step (h : Winding workers capacity begun i moves s c)
    (hclosed : s.pool.closed = true) (hbeside : m.isBeside = true) (hstep : s.step m = some s')
    {w : Nat} (hasleep : s'.pool.workers[w]? = some .asleep) :
    s.pool.workers[w]? = some .asleep := by
  obtain ⟨-, hturn⟩ := turn_of_step h.alone h.place hbeside hstep
  -- A closed pool lets nobody go to sleep.
  cases hturn with
  | @work v old new wakes hmover hold hmove hplace howned =>
    rw [hmove.workers_eq] at hasleep
    by_cases hvw : v = w
    · subst hvw
      rw [List.getElem?_set_self (List.getElem?_eq_some_iff.1 hold).1] at hasleep
      have hopen := hmove.sleeps_open (Option.some.inj hasleep)
      exact Bool.noConfusion (hopen.symm.trans hclosed)
    · rw [List.getElem?_set_ne hvw] at hasleep
      exact hasleep
  | beside _ hpool =>
    rw [hpool] at hasleep
    exact hasleep
  | own _ hmove =>
    rcases (hmove.goes_on h.shuts).2 with ⟨-, -, heq⟩ | ⟨-, -, heq⟩ | ⟨-, heq⟩
    · rw [heq] at hasleep
      exact hasleep
    · rw [heq] at hasleep
      exact hasleep
    · rw [heq] at hasleep
      exact absurd (List.mem_of_getElem? hasleep) s.pool.asleep_notMem_clear

/-- A worker that is `looking` into a pool that was cleared leaves. -/
theorem exits_of_looking (h : Winding workers capacity begun i moves s c)
    (hcleared : c.hasCleared = true) {w : Nat} (hlooking : s.pool.workers[w]? = some .looking) :
    ∃ s', s.step (.work w) = some s' ∧ s'.exited w = true := by
  have hlt := (List.getElem?_eq_some_iff.1 hlooking).1
  refine ⟨s.worked { s.pool.place w .exited with remaining := s.pool.remaining - 1 } true, ?_, ?_⟩
  · simp only [Shared.step, Pool.work, hlooking, Pool.look, h.emptied hcleared, h.closed hcleared,
      if_true, Option.map_some]
  · show (s.pool.workers.set w .exited)[w]?.any Worker.hasExited = true
    rw [List.getElem?_set_self hlt]
    rfl

end Winding

/-- **No wakeup is missed** by the shutdown that came to `s` and began at `begun`, after some moves.
    Its place is behind the callers of `s`. -/
structure MissesNoWakeup (workers : Nat) (s begun : Shared J) (moves : List (Move J))
    (s' : Shared J) : Prop where
  /-- While it is `awaitingExits`, some worker outside any job has not left and does not sleep.
      However all others move, the shutdown is woken by the time this worker has done four steps. -/
  waits : s'.callers[s.callers.length]? = some .awaitingExits →
    ∃ (w : Nat) (worker : Worker J), s'.pool.workers[w]? = some worker ∧ worker.isActive = false
      ∧ worker.hasExited = false ∧ worker ≠ .asleep
      ∧ ∀ more s'', (∀ m ∈ more, m.isBeside = true) → s'.run more = some s'' →
        4 ≤ more.countP (Move.isWorkOf w) → ∃ front s₁, front <+: more ∧ s'.run front = some s₁
          ∧ s₁.callers[s.callers.length]? = some .checkingExits
  /-- Whichever worker leaves then wakes it. -/
  notifies : s'.callers[s.callers.length]? = some .awaitingExits → ∀ w s'',
    s'.step (.work w) = some s'' → s'.exited w = false → s''.exited w = true →
      s''.callers[s.callers.length]? = some .checkingExits
  /-- No worker falls asleep when the pool is `closed`. -/
  sleeps : s'.pool.closed = true → ∀ (m : Move J) (s'' : Shared J) (w : Nat), m.isBeside = true →
    s'.step m = some s'' → s''.pool.workers[w]? = some .asleep →
      s'.pool.workers[w]? = some .asleep
  /-- Who sleeps when the pool is `closed` is woken by the next step of the shutdown. -/
  notified : s'.pool.closed = true → Worker.asleep ∈ s'.pool.workers →
    s'.callers[s.callers.length]? = some .clearing
      ∧ ∃ s'', s'.step (.advance s.callers.length) = some s''
        ∧ Worker.asleep ∉ s''.pool.workers
  /-- When it is `ended n`, nothing waits.  Since its first wait each worker has left, or is with
      the job that it was inside of or had just ended then, or will leave by its next step.  It has
      seen the workers in order, and `n` of them had not left when it saw them. -/
  ends : ∀ n, s'.callers[s.callers.length]? = some (.ended n) →
    s'.pool.queue = [] ∧ s'.pool.workers.length = workers
      ∧ (∃ passed, begun.Passed s.callers.length moves s' passed ∧ passed.WoundDown s')
      ∧ (∀ w, s'.pool.workers[w]? = some .looking →
        ∃ s'', s'.step (.work w) = some s'' ∧ s''.exited w = true)
      ∧ (begun.inspections moves).map Prod.fst = s.owned
      ∧ (s.pool.closed = false → s.owned = List.range workers)
      ∧ n = (begun.inspections moves).countP (!·.2)

/-- **A shutdown misses no wakeup,** in whatever `Recorded` state it finds the pool, however the
    workers move and whoever waits beside it until the pool is idle, if nobody else submits or shuts
    down. -/
theorem misses_no_wakeup (hrecorded : s.Recorded workers capacity l)
    (hbeside : ∀ c ∈ s.callers, c.isBeside = true) (henter : s.step (.enter .shutDown) = some begun)
    (hmoves : ∀ m ∈ moves, m.isBeside = true) (hrun : begun.run moves = some s') :
    MissesNoWakeup workers s begun moves s' := by
  -- `Winding` holds from the first step of the shutdown on, and the parts of the claim are read off
  -- it.
  obtain ⟨c, h⟩ := (Winding.of_enter hrecorded hbeside henter).after_run hmoves hrun
  rw [List.nil_append] at h
  have hc : ∀ {c'}, s'.callers[s.callers.length]? = some c' → c = c' := fun hplace =>
    Option.some.inj (h.place.symm.trans hplace)
  have howned : begun.owned = s.owned := by
    obtain rfl := Option.some.inj henter
    rfl
  constructor
  · intro hplace
    obtain rfl := hc hplace
    obtain ⟨w, worker, hworker, hinactive, hstays, hawake⟩ := h.exists_leaving
    refine ⟨w, worker, hworker, hinactive, hstays, hawake, fun more s'' hmore hrun' hcount => ?_⟩
    exact h.woken_within hworker (Worker.toExit_pos hinactive hstays hawake) hmore hrun'
      (Nat.le_trans worker.toExit_le hcount)
  · intro hplace w s'' hstep hstays hexited
    cases moves_of_step hstep with
    | @work _ old new p wakes hold hmove =>
      obtain rfl := hmove.wakes_of_exits (hmove.eq_exited hold hexited)
      simp only [worked, if_true, List.getElem?_map, hplace]
      rfl
    | caller hmover => simp [Move.caller?] at hmover
  · intro hclosed m s'' w hm hstep hasleep
    exact h.asleep_of_step hclosed hm hstep hasleep
  · intro hclosed hasleep
    obtain rfl := h.clearing_of_asleep hclosed hasleep
    refine ⟨h.place,
      { s'.move s.callers.length (.afterClear s'.pool.clear) with pool := s'.pool.clear }, ?_,
      s'.pool.asleep_notMem_clear⟩
    simp only [step, advance, h.place]
  · intro n hplace
    obtain rfl := hc hplace
    obtain ⟨horder, hcount⟩ := h.seen [] n rfl
    rw [List.append_nil, howned] at horder
    -- What was inspected so far is all there is to inspect.
    refine ⟨h.emptied rfl, h.staffed, h.since rfl, fun w hlooking => ?_, horder,
      owned_of_open hrecorded, hcount⟩
    exact h.exits_of_looking rfl hlooking

/-- A job is put in and taken, and the other worker falls `asleep`. -/
def stuckSchedule : List (Move Nat × Ending) := [
  (.enter (.submit 7), .returned), (.advance 0, .returned), (.advance 0, .returned),
  (.rouse 0 none, .returned), (.work 0, .returned), (.work 1, .returned)]

/-- The shutdown gives up to wait for an idle pool, sets `closed`, and drops what waits. -/
def waitingMoves : List (Move Nat) := [
  .advance 1, .advance 1, .expire 1, .advance 1, .advance 1]

/-- The sleeper leaves, and the shutdown gives up to wait for the other worker. -/
def detachingMoves : List (Move Nat) := [
  .work 1, .advance 1, .expire 1, .advance 1, .advance 1, .advance 1, .advance 1]

/-- The shutdown of a pool with a worker in a job that never returns waits for the other one, is
    woken by it, and tells of one detached worker: `ended 1`. -/
theorem misses_no_wakeup_stuck :
    ∃ (s begun waiting s' : Shared Nat) (l : Ledger Nat), s.Recorded 2 1 l
      ∧ s.pool.workers = [.running 7, .asleep] ∧ s.step (.enter .shutDown) = some begun
      ∧ begun.run waitingMoves = some waiting ∧ waiting.callers[1]? = some .awaitingExits
      ∧ MissesNoWakeup 2 s begun waitingMoves waiting
      ∧ begun.run (waitingMoves ++ detachingMoves) = some s'
      ∧ s'.callers[1]? = some (.ended 1)
      ∧ begun.inspections (waitingMoves ++ detachingMoves) = [(0, false), (1, true)]
      ∧ MissesNoWakeup 2 s begun (waitingMoves ++ detachingMoves) s' := by
  -- Seven is inside a job that does not end, and the other worker sleeps when the shutdown begins.
  obtain ⟨s, l, begun, waiting, s', hpast, hworkers, hcallers, henter, hwaiting, hwaits, hrun,
      hended, hseen⟩ :
      ∃ (s : Shared Nat) (l : Ledger Nat) (begun waiting s' : Shared Nat),
        (start Nat 2 1).follow .empty stuckSchedule = some (s, l)
          ∧ s.pool.workers = [.running 7, .asleep] ∧ s.callers = [.submitted true]
          ∧ s.step (.enter .shutDown) = some begun ∧ begun.run waitingMoves = some waiting
          ∧ waiting.callers[1]? = some .awaitingExits
          ∧ begun.run (waitingMoves ++ detachingMoves) = some s'
          ∧ s'.callers[1]? = some (.ended 1)
          ∧ begun.inspections (waitingMoves ++ detachingMoves) = [(0, false), (1, true)] :=
    ⟨_, _, _, _, _, rfl, rfl, rfl, rfl, rfl, rfl, rfl, rfl, rfl⟩
  have hrecorded : s.Recorded 2 1 l := runs_of_follow hpast
  have hbeside : ∀ c ∈ s.callers, c.isBeside = true := by
    rw [hcallers]
    decide
  exact ⟨s, begun, waiting, s', l, hrecorded, hworkers, henter, hwaiting, hwaits,
    misses_no_wakeup hrecorded hbeside henter (by decide) hwaiting, hrun, hended, hseen,
    misses_no_wakeup hrecorded hbeside henter (by decide) hrun⟩

end Shared

end BatchJournal
