import BatchJournal.Proofs.Pool.Turns

namespace BatchJournal

/-!
# A pool is wound up

A shutdown closes the pool, drops what waits, waits until only workers inside a job are left, and
takes over the workers.  Where nobody else submits or shuts down, the pool stays empty from the
second of these steps on, more workers remain than are active while the shutdown is in its first
wait, and after that wait each worker has left or stays with the job that it was inside of.

* `Shared.Winding` — what holds of the pool and the shutdown, place by place.
* `Shared.WoundDown` — the workers since the first wait.
* `Shared.Winding.of_enter`, `Shared.Winding.after_step` — it holds where the shutdown comes,
  and every move keeps it.
-/

variable {J : Type}

namespace Shared

variable {s s' : Shared J} {c : Caller J} {m : Move J} {i : Nat}

/-! ### The pool is wound up -/

variable {workers capacity : Nat} {begun passed : Shared J} {moves : List (Move J)} {l : Ledger J}

/-- Caller `i` has ended the wait that has no deadline: `hasSeenExits`. -/
def sawExits (s : Shared J) (i : Nat) : Bool := s.callers[i]?.any Caller.hasSeenExits

/-- **The end of the first wait:** `passed` is the state after the move of `moves` by which caller
    `i` came to have ended the wait without a deadline. -/
def Passed (begun : Shared J) (i : Nat) (moves : List (Move J)) (s passed : Shared J) : Prop :=
  ∃ front m back before, moves = front ++ m :: back ∧ begun.run front = some before
    ∧ before.step m = some passed ∧ passed.run back = some s
    ∧ before.sawExits i = false ∧ passed.sawExits i = true

/-- **The workers between `passed` and `s`:** each has left, or is with the `job?` that it had then,
    or looks for a last time. -/
def WoundDown (passed s : Shared J) : Prop :=
  ∀ (w : Nat) (worker : Worker J), s.pool.workers[w]? = some worker → worker.hasExited = true
    ∨ ∃ job, (passed.pool.workers[w]? = some (.running job)
        ∨ passed.pool.workers[w]? = some (.leaving job))
      ∧ (worker.job? = some job ∨ worker = .looking)

/-- **A shutdown at `c`** that has the end of the pool to itself, after some moves from where it
    began. -/
structure Winding (workers capacity : Nat) (begun : Shared J) (i : Nat) (moves : List (Move J))
    (s : Shared J) (c : Caller J) : Prop where
  /-- The moves lead from `begun` to `s`. -/
  runs : begun.run moves = some s
  /-- The pool came to this by moves. -/
  recorded : ∃ l, s.Recorded workers capacity l
  /-- Every other caller is beside the shutdown. -/
  alone : s.Alone i
  /-- Caller `i` is the shutdown, at its place `c`. -/
  place : s.callers[i]? = some c
  /-- It is a place of a shutdown. -/
  shuts : c.isShuttingDown = true
  /-- What waited is dropped once it `hasCleared`, and nothing waits after that. -/
  emptied : c.hasCleared = true → s.pool.queue = []
  /-- While it is `awaitingExits` more workers remain than are active. -/
  short : c = .awaitingExits → s.pool.active < s.pool.remaining
  /-- It has seen no worker before it took over those of `owned`. -/
  unseen : c.inspected? = none → begun.inspections moves = [] ∧ s.owned = begun.owned
  /-- It sees them in order, and counts those that are not `exited`. -/
  seen : ∀ ws n, c.inspected? = some (ws, n) →
    (begun.inspections moves).map Prod.fst ++ ws = begun.owned
      ∧ n = (begun.inspections moves).countP (!·.2)
  /-- After its first wait the workers have `WoundDown`. -/
  since : c.hasSeenExits = true → ∃ passed, begun.Passed i moves s passed ∧ passed.WoundDown s

namespace Winding

/-- A pool that was cleared is `closed`. -/
theorem closed (h : Winding workers capacity begun i moves s c) (hcleared : c.hasCleared = true) :
    s.pool.closed = true := by
  obtain ⟨l, hrecorded⟩ := h.recorded
  exact (Ledger.Closes.of_recorded hrecorded).closed c (List.mem_of_getElem? h.place)
    (Caller.hasClosed_of_hasCleared hcleared)

/-- Nobody is `asleep` in a pool that was cleared. -/
theorem awake (h : Winding workers capacity begun i moves s c) (hcleared : c.hasCleared = true) :
    .asleep ∉ s.pool.workers := by
  obtain ⟨l, hrecorded⟩ := h.recorded
  exact (Ledger.Closes.of_recorded hrecorded).awake
    ⟨c, List.mem_of_getElem? h.place, hcleared⟩

/-- `active` and `remaining` are the numbers of the workers. -/
theorem counts (h : Winding workers capacity begun i moves s c) :
    s.pool.active = s.pool.workers.countP Worker.isActive
      ∧ s.pool.remaining = s.pool.workers.countP Worker.remains := by
  obtain ⟨l, hrecorded⟩ := h.recorded
  have hbalances := (Ledger.agrees_of_recorded hrecorded).1
  exact ⟨hbalances.active, hbalances.remaining⟩

/-- The pool has the `workers` that it started with. -/
theorem staffed (h : Winding workers capacity begun i moves s c) :
    s.pool.workers.length = workers := by
  obtain ⟨l, hrecorded⟩ := h.recorded
  exact (Ledger.agrees_of_recorded hrecorded).1.staffed.staff

end Winding

/-! ### Every move -/

theorem Passed.concat (h : begun.Passed i moves s passed) (hstep : s.step m = some s') :
    begun.Passed i (moves ++ [m]) s' passed := by
  obtain ⟨front, m', back, before, rfl, hfront, hpass, hback, hunseen, hseen⟩ := h
  refine ⟨front, m', back ++ [m], before, ?_, hfront, hpass, run_concat.2 ⟨s, hback, hstep⟩,
    hunseen, hseen⟩
  rw [List.append_assoc, List.cons_append]

/-- **A `WorkMove`** over a closed and empty pool keeps `WoundDown`. -/
theorem WoundDown.after_workMove {w : Nat} {old new : Worker J} {wakes : Bool} (h : passed.WoundDown s)
    (hold : s.pool.workers[w]? = some old) (hmove : s.pool.WorkMove w old new s'.pool wakes)
    (hclosed : s.pool.closed = true) (hqueue : s.pool.queue = []) : passed.WoundDown s' := by
  intro v worker hworker
  rw [hmove.workers_eq] at hworker
  by_cases hwv : w = v
  · subst hwv
    rw [List.getElem?_set_self (List.getElem?_eq_some_iff.1 hold).1] at hworker
    obtain rfl := Option.some.inj hworker
    rcases h w old hold with hexited | ⟨job, hinside, hwith⟩
    · exact Bool.noConfusion (hmove.stays.symm.trans hexited)
    · rcases hmove.winds_down hclosed hqueue hwith with hexited | hstill
      · exact .inl hexited
      · exact .inr ⟨job, hinside, hstill⟩
  · rw [List.getElem?_set_ne hwv] at hworker
    exact h v worker hworker

/-- **When the first wait is over** who has not left `isActive`: it is inside a job or has just
    ended one. -/
theorem woundDown_self
    (h : s.pool.workers.countP Worker.remains ≤ s.pool.workers.countP Worker.isActive) :
    s.WoundDown s := by
  intro w worker hworker
  cases hexited : worker.hasExited with
  | true => exact .inl rfl
  | false =>
    have hactive := Pool.isActive_of_remains h (List.mem_of_getElem? hworker)
      (by simp [Worker.remains, hexited])
    obtain ⟨job, rfl | rfl⟩ := Worker.exists_job_of_isActive hactive
    · exact .inr ⟨job, .inl hworker, .inl rfl⟩
    · exact .inr ⟨job, .inr hworker, .inl rfl⟩

namespace Winding

/-- **A `WorkMove`** keeps `Winding`; it may wake the shutdown. -/
theorem after_workMove (h : Winding workers capacity begun i moves s c) {w : Nat} {old new : Worker J}
    {wakes : Bool} (hstep : s.step (.work w) = some s') (halone : s'.Alone i)
    (hold : s.pool.workers[w]? = some old) (hmove : s.pool.WorkMove w old new s'.pool wakes)
    (hplace : s'.callers[i]? = some (if wakes then c.wake else c)) (howned : s'.owned = s.owned) :
    Winding workers capacity begun i (moves ++ [.work w]) s' (if wakes then c.wake else c) := by
  obtain ⟨l, hrecorded⟩ := h.recorded
  -- Woken or not, the shutdown is as far as it was.
  have hsame : ∀ {α : Type} (mark : Caller J → α), mark c.wake = mark c →
      mark (if wakes then c.wake else c) = mark c := by
    intro α mark hwake
    cases wakes with
    | false => rfl
    | true => exact hwake
  have hcleared := hsame Caller.hasCleared c.wake_marks.2.1
  have hshuts := hsame Caller.isShuttingDown c.wake_progress.1
  have hseen := hsame Caller.hasSeenExits c.wake_progress.2.1
  have hinspected := hsame Caller.inspected? c.wake_progress.2.2
  have hinspections : begun.inspections (moves ++ [.work w]) = begun.inspections moves := by
    rw [inspections_concat h.runs]
    exact List.append_nil _
  generalize hc' : (if wakes then c.wake else c) = c' at hplace hcleared hshuts hseen hinspected
  constructor
  · exact run_concat.2 ⟨s, h.runs, hstep⟩
  · exact ⟨_, Runs.step hrecorded hstep .returned⟩
  · exact halone
  · exact hplace
  · exact hshuts.trans h.shuts
  · intro hmark
    have hqueue := hmove.queue_eq
    rw [h.emptied (hcleared.symm.trans hmark)] at hqueue
    exact (List.nil_eq_append_iff.1 hqueue).2
  · intro hwaits
    have hasleep : wakes = false := by
      cases wakes with
      | false => rfl
      | true => exact absurd (hc'.trans hwaits) c.wake_ne_awaitingExits
    have hc : c = .awaitingExits := by
      rw [hasleep] at hc'
      exact hc'.trans hwaits
    exact hmove.short (h.emptied (hc ▸ rfl)) hasleep (h.short hc)
  · intro hnone
    rw [hinspections, howned]
    exact h.unseen (hinspected.symm.trans hnone)
  · intro ws n hsome
    rw [hinspections]
    exact h.seen ws n (hinspected.symm.trans hsome)
  · intro hmark
    have hbefore := hseen.symm.trans hmark
    obtain ⟨passed, hpassed, hdown⟩ := h.since hbefore
    have hmarkCleared := Caller.hasCleared_of_hasSeenExits hbefore
    exact ⟨passed, hpassed.concat hstep,
      hdown.after_workMove hold hmove (h.closed hmarkCleared) (h.emptied hmarkCleared)⟩

/-- **A move beside the shutdown** keeps `Winding`, for it leaves pool, place and `owned` alone. -/
theorem after_other (h : Winding workers capacity begun i moves s c) (hstep : s.step m = some s')
    (halone : s'.Alone i) (hpool : s'.pool = s.pool) (hplace : s'.callers[i]? = some c)
    (howned : s'.owned = s.owned) (hunseen : s.inspection m = []) :
    Winding workers capacity begun i (moves ++ [m]) s' c := by
  obtain ⟨l, hrecorded⟩ := h.recorded
  -- The move inspects nobody, and the caller stands where it stood.
  have hinspections : begun.inspections (moves ++ [m]) = begun.inspections moves := by
    rw [inspections_concat h.runs, hunseen, List.append_nil]
  constructor
  · exact run_concat.2 ⟨s, h.runs, hstep⟩
  · exact ⟨_, Runs.step hrecorded hstep .returned⟩
  · exact halone
  · exact hplace
  · exact h.shuts
  · rw [hpool]
    exact h.emptied
  · rw [hpool]
    exact h.short
  · rw [hinspections, howned]
    exact h.unseen
  · rw [hinspections]
    exact h.seen
  · intro hmark
    obtain ⟨passed, hpassed, hdown⟩ := h.since hmark
    refine ⟨passed, hpassed.concat hstep, fun w worker hworker => hdown w worker ?_⟩
    rw [← hpool]
    exact hworker

/-- Only at `inspecting (w :: ws) n` the shutdown sees something in a step of its own. -/
theorem inspection_eq_nil (h : Winding workers capacity begun i moves s c)
    (hmover : m.caller? = some i) (hother : ∀ w ws n, c ≠ .inspecting (w :: ws) n) :
    s.inspection m = [] := by
  simp only [inspection, hmover, Option.bind_some, h.place]
  split
  · rename_i w ws n hc
    exact absurd (Option.some.inj hc) (hother w ws n)
  · rfl

/-- **A `CallerMove` of the shutdown** keeps `Winding` at its new place. -/
theorem after_callerMove (h : Winding workers capacity begun i moves s c) {new : Caller J}
    (hstep : s.step m = some s') (halone : s'.Alone i) (hmover : m.caller? = some i)
    (hmove : s.CallerMove c new s'.pool) (hplace : s'.callers[i]? = some new)
    (howned : c ≠ .taking → s'.owned = s.owned) :
    Winding workers capacity begun i (moves ++ [m]) s' new := by
  obtain ⟨l, hrecorded⟩ := h.recorded
  -- What the caller does next, and what that does to the pool, is known from where it stands.
  obtain ⟨hshuts, hpool⟩ := hmove.goes_on h.shuts
  obtain ⟨hshort, hends⟩ := hmove.first_wait
  have hrecorded' : s'.Recorded workers capacity _ := Runs.step hrecorded hstep .returned
  have hbalances := (Ledger.agrees_of_recorded hrecorded').1
  have hinspections := inspections_concat h.runs m
  constructor
  · exact run_concat.2 ⟨s, h.runs, hstep⟩
  · exact ⟨_, hrecorded'⟩
  · exact halone
  · exact hplace
  · exact hshuts
  · -- Once cleared the pool stays empty; the clearing itself is the one move that comes here.
    intro hmark
    rcases hpool with ⟨-, hne, hsame⟩ | ⟨-, rfl, -⟩ | ⟨-, hclear⟩
    · rw [hsame]
      exact h.emptied ((hmove.marks.2.1 hmark).resolve_right hne)
    · exact Bool.noConfusion hmark
    · rw [hclear]
      rfl
  · exact hshort
  · intro hnone
    obtain ⟨hbefore, hne⟩ := hmove.uninspected hnone
    obtain ⟨hnothing, hkept⟩ := h.unseen hbefore
    have hunseen : s.inspection m = [] := h.inspection_eq_nil hmover (by
      rintro w ws n rfl
      simp [Caller.inspected?] at hbefore)
    rw [hinspections, hnothing, hunseen]
    exact ⟨rfl, (howned hne).trans hkept⟩
  · -- The inspection begins, goes on with the next worker, or is over.
    intro ws n hsome
    rw [hinspections]
    rcases hmove.inspected hsome with ⟨rfl, rfl, rfl⟩ | ⟨w, n', rfl, rfl⟩ | ⟨rfl, rfl⟩
    · obtain ⟨hnothing, hkept⟩ := h.unseen rfl
      rw [hnothing, h.inspection_eq_nil hmover (by simp)]
      exact ⟨hkept, rfl⟩
    · obtain ⟨horder, hcount⟩ := h.seen (w :: ws) n' rfl
      have hinspection : s.inspection m = [(w, s.exited w)] := by
        simp only [inspection, hmover, Option.bind_some, h.place]
      rw [hinspection, List.map_append, List.countP_append, List.append_assoc, ← hcount]
      refine ⟨horder, ?_⟩
      cases hexited : s.exited w <;> simp
    · obtain ⟨horder, hcount⟩ := h.seen [] n rfl
      rw [h.inspection_eq_nil hmover (by simp)]
      simp only [List.append_nil] at horder ⊢
      exact ⟨horder, hcount⟩
  · -- Either the exits were seen before, and nothing has changed since, or this is the look that
    -- sees them.
    intro hmark
    cases hbefore : c.hasSeenExits with
    | true =>
      obtain ⟨passed, hpassed, hdown⟩ := h.since hbefore
      have hsame : s'.pool = s.pool := by
        rcases hpool with ⟨-, -, hsame⟩ | ⟨rfl, -⟩ | ⟨rfl, -⟩
        · exact hsame
        · exact Bool.noConfusion hbefore
        · exact Bool.noConfusion hbefore
      refine ⟨passed, hpassed.concat hstep, fun w worker hworker => hdown w worker ?_⟩
      rw [← hsame]
      exact hworker
    | false =>
      refine ⟨s', ⟨moves, m, [], s, rfl, h.runs, hstep, rfl, ?_, ?_⟩, ?_⟩
      · simp only [sawExits, h.place, Option.any_some, hbefore]
      · simp only [sawExits, hplace, Option.any_some, hmark]
      · refine woundDown_self ?_
        rw [← hbalances.remaining, ← hbalances.active]
        exact hends hmark hbefore

/-- **Every move** with `isBeside` keeps `Winding`, at some place of the shutdown. -/
theorem after_step (h : Winding workers capacity begun i moves s c) (hbeside : m.isBeside = true)
    (hstep : s.step m = some s') : ∃ c', Winding workers capacity begun i (moves ++ [m]) s' c' := by
  obtain ⟨halone, hturn⟩ := turn_of_step h.alone h.place hbeside hstep
  cases hturn with
  | work hmover hold hmove hplace howned =>
    subst hmover
    exact ⟨_, h.after_workMove hstep halone hold hmove hplace howned⟩
  | beside _ hpool hplace howned hunseen =>
    exact ⟨c, h.after_other hstep halone hpool hplace howned hunseen⟩
  | own hmover hmove hplace howned =>
    exact ⟨_, h.after_callerMove hstep halone hmover hmove hplace howned⟩

/-- **A run** of such moves keeps `Winding`. -/
theorem after_run (h : Winding workers capacity begun i moves s c) {more : List (Move J)}
    (hbeside : ∀ m ∈ more, m.isBeside = true) (hrun : s.run more = some s') :
    ∃ c', Winding workers capacity begun i (moves ++ more) s' c' := by
  induction more generalizing moves s c with
  | nil =>
    obtain rfl := Option.some.inj hrun
    exact ⟨c, by rwa [List.append_nil]⟩
  | cons m more ih =>
    obtain ⟨s₁, hstep, hrest⟩ := Option.bind_eq_some_iff.1 hrun
    obtain ⟨c₁, hnext⟩ := h.after_step (hbeside m List.mem_cons_self) hstep
    obtain ⟨c', hend⟩ := ih hnext (fun m' hm' => hbeside m' (List.mem_cons_of_mem m hm')) hrest
    refine ⟨c', ?_⟩
    rwa [List.append_assoc, List.singleton_append] at hend

/-- **A shutdown that comes** to a `Recorded` pool, with every other caller beside it, begins
    `Winding`. -/
theorem of_enter (hrecorded : s.Recorded workers capacity l)
    (hbeside : ∀ c ∈ s.callers, c.isBeside = true)
    (henter : s.step (.enter .shutDown) = some begun) :
    Winding workers capacity begun s.callers.length [] begun .ending := by
  have hrecorded' := Runs.step hrecorded henter .returned
  obtain rfl := Option.some.inj henter
  constructor
  · rfl
  · exact ⟨_, hrecorded'⟩
  · intro j c hc hne
    rcases Nat.lt_or_ge j s.callers.length with hj | hj
    · rw [List.getElem?_append_left hj] at hc
      exact hbeside c (List.mem_of_getElem? hc)
    · -- Behind the others there is the shutdown only.
      have hlt := (List.getElem?_eq_some_iff.1 hc).1
      simp only [List.length_append, List.length_singleton] at hlt
      omega
  · exact List.getElem?_concat_length
  · rfl
  · exact nofun
  · exact nofun
  · exact fun _ => ⟨rfl, rfl⟩
  · exact nofun
  · exact nofun

end Winding

end Shared

end BatchJournal
