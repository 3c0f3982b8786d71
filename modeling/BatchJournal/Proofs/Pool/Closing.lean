import BatchJournal.Pool.Trial
import BatchJournal.Proofs.Pool.Ledger

namespace BatchJournal

/-!
# The jobs that a closing pool leaves behind

A shutdown closes the pool and then drops what waits.  A submission that found the pool open and has
not put its job in when the pool closes still puts it in, and there may be nobody left to take it.
No other job can be left behind.

* `Shared.Cleared` — a shutdown has dropped what waited.
* `Ledger.Closes` — what waits in a pool that is cleared or deserted was put in after it closed.
* `Shared.late_of_closed` — after that only those come in whose submissions stood before it.
* `Shared.left_only_if_late` — so only jobs are left whose submissions stood between the look and
  the insertion.
* `Shared.strands` — and those can be left for good.
-/

variable {J : Type}

namespace Caller

/-- The caller has closed the pool, in the move `closes`. -/
def hasClosed : Caller J → Bool
  | .clearing | .awaitingExits | .checkingExits | .awaitingJobs | .checkingJobs | .taking
  | .inspecting .. | .ended _ => true
  | _ => false

/-- The caller has dropped what waited, in the move `clears`. -/
def hasCleared : Caller J → Bool
  | .awaitingExits | .checkingExits | .awaitingJobs | .checkingJobs | .taking | .inspecting ..
  | .ended _ => true
  | _ => false

/-- The caller found the pool open and has not put its job in: it is `inserting`. -/
def isInserting : Caller J → Bool
  | .inserting _ => true
  | _ => false

/-- `clearing` comes before everything that `hasCleared` tells of. -/
theorem hasClosed_of_hasCleared {c : Caller J} (h : c.hasCleared = true) : c.hasClosed = true := by
  cases c <;> first | rfl | exact h

/-- `wake` changes none of the three. -/
theorem wake_marks (c : Caller J) : c.wake.hasClosed = c.hasClosed
    ∧ c.wake.hasCleared = c.hasCleared ∧ c.wake.isInserting = c.isInserting := by
  cases c <;> exact ⟨rfl, rfl, rfl⟩

/-- A new caller has none of the three. -/
theorem entering_marks (r : Request J) : r.caller.hasClosed = false
    ∧ r.caller.hasCleared = false ∧ r.caller.isInserting = false := by
  cases r <;> exact ⟨rfl, rfl, rfl⟩

end Caller

/-- Every worker is `exited`. -/
def Pool.Deserted (p : Pool J) : Prop := ∀ worker ∈ p.workers, worker.hasExited = true

/-- `Deserted` in numbers: `Worker.remains` counts nobody. -/
theorem Pool.deserted_iff {p : Pool J} : p.Deserted ↔ p.workers.countP Worker.remains = 0 := by
  simp [Deserted, Worker.remains, List.countP_eq_zero]

namespace Shared

variable {s s' : Shared J} {old new : Caller J} {p : Pool J} {i : Nat}

/-- **A shutdown has dropped** what waited: some caller `hasCleared`. -/
def Cleared (s : Shared J) : Prop := ∃ c ∈ s.callers, c.hasCleared = true

/-- `worked` wakes callers and leaves what they had done. -/
theorem exists_of_mem_worked {wakes : Bool} {c : Caller J} (hc : c ∈ (s.worked p wakes).callers) :
    ∃ c₀ ∈ s.callers, c.hasClosed = c₀.hasClosed ∧ c.hasCleared = c₀.hasCleared := by
  cases wakes with
  | false => exact ⟨c, hc, rfl, rfl⟩
  | true =>
    obtain ⟨c₀, hc₀, rfl⟩ := List.mem_map.1 hc
    exact ⟨c₀, hc₀, c₀.wake_marks.1, c₀.wake_marks.2.1⟩

/-- **How a caller comes to have closed or cleared** the pool, and to be `inserting`: from
    `closing`, from `clearing`, and from a look at an open pool. -/
theorem CallerMove.marks (h : s.CallerMove old new p) :
    (new.hasClosed = true → old.hasClosed = true ∨ old = .closing)
      ∧ (new.hasCleared = true → old.hasCleared = true ∨ old = .clearing)
      ∧ (new.isInserting = true → s.pool.closed = false) := by
  -- Only `closes` and `clears` come to these marks; the places behind them have had them before.
  cases h with
  | looks => split <;> simp_all [Caller.hasClosed, Caller.hasCleared, Caller.isInserting]
  | begins => split <;> simp [Caller.hasClosed, Caller.hasCleared, Caller.isInserting]
  | @finds ending =>
    cases ending <;>
      simp [Caller.onIdle, Caller.hasClosed, Caller.hasCleared, Caller.isInserting]
  | clears =>
    rcases Caller.afterClear_cases s.pool.clear with hnew | hnew | hnew <;>
      simp [hnew, Caller.hasClosed, Caller.hasCleared, Caller.isInserting]
  | seesExits =>
    rcases Caller.afterClear_cases s.pool with hnew | hnew | hnew <;>
      simp [hnew, Caller.hasClosed, Caller.hasCleared, Caller.isInserting]
  | seesJobs =>
    rcases Caller.afterExits_cases s.pool with hnew | hnew <;>
      simp [hnew, Caller.hasClosed, Caller.hasCleared, Caller.isInserting]
  | refused | puts | rouses | waits | closes | takesOver | inspects | shutsDown =>
    simp [Caller.hasClosed, Caller.hasCleared, Caller.isInserting]
  | expires hexpire =>
    rcases Caller.expire_cases hexpire with ⟨rfl, rfl⟩ | ⟨rfl, rfl⟩ | ⟨rfl, rfl⟩ <;>
      simp [Caller.hasClosed, Caller.hasCleared, Caller.isInserting]

/-- **What a `CallerMove` does to the queue:** it puts a job in, closes the pool, drops what waits,
    or does nothing but wake somebody. -/
theorem CallerMove.effect (h : s.CallerMove old new p) (l : Ledger J) :
    (∃ job, old = .inserting job ∧ s.pool.push job = some p
        ∧ l.called s.pool old new = { l with
            accepted := l.accepted ++ [job]
            late := if s.pool.closed then l.late ++ [job] else l.late })
      ∨ (old = .closing ∧ p = s.pool.close ∧ l.called s.pool old new = l)
      ∨ (old = .clearing ∧ p = s.pool.clear
        ∧ l.called s.pool old new = { l with dropped := l.dropped ++ s.pool.queue })
      ∨ (old ≠ .closing ∧ old ≠ .clearing ∧ s.pool.Woken p
        ∧ p = { s.pool with workers := p.workers } ∧ l.called s.pool old new = l) := by
  -- All but the three moves of the disjunction leave the pool as it is, but for a worker that is
  -- woken.
  have hsame : s.pool.Woken s.pool := ⟨.refl _, .refl _, rfl, rfl, rfl, id⟩
  cases h with
  | puts hpush => exact .inl ⟨_, rfl, hpush, rfl⟩
  | closes => exact .inr (.inl ⟨rfl, rfl, rfl⟩)
  | clears => exact .inr (.inr (.inl ⟨rfl, rfl, rfl⟩))
  | rouses hrouse =>
    obtain ⟨hwoken, heq⟩ := Pool.woken_rouse hrouse
    exact .inr (.inr (.inr ⟨by simp, by simp, hwoken, heq, rfl⟩))
  | expires hexpire =>
    rcases Caller.expire_cases hexpire with ⟨rfl, rfl⟩ | ⟨rfl, rfl⟩ | ⟨rfl, rfl⟩ <;>
      exact .inr (.inr (.inr ⟨by simp, by simp, hsame, rfl, rfl⟩))
  | looks | refused | finds | waits | begins | seesExits | seesJobs | takesOver | inspects
  | shutsDown => exact .inr (.inr (.inr ⟨by simp, by simp, hsame, rfl, rfl⟩))

end Shared

namespace Ledger

variable {workers capacity : Nat} {s s' : Shared J} {l : Ledger J} {p : Pool J} {i w : Nat}

/-- **What waits in a pool that is `Cleared` or `Deserted`** is a suffix of `l.late`, the jobs put
    in after it was closed. -/
structure Closes (workers : Nat) (s : Shared J) (l : Ledger J) : Prop where
  /-- A pool that some caller `hasClosed` is closed. -/
  closed : ∀ c ∈ s.callers, c.hasClosed = true → s.pool.closed = true
  /-- Nothing is late for an open pool. -/
  unclosed : s.pool.closed = false → l.late = []
  /-- Once `Cleared`, what waits came late. -/
  cleared : s.Cleared → s.pool.queue <:+ l.late
  /-- Once `Cleared`, nobody is `asleep`. -/
  awake : s.Cleared → .asleep ∉ s.pool.workers
  /-- What waits in a `Deserted` pool came late. -/
  deserted : 0 < workers → s.pool.Deserted → s.pool.queue <:+ l.late

namespace Closes

/-- `Cleared` implies `closed`. -/
theorem closed_of_cleared (h : Closes workers s l) (hcleared : s.Cleared) :
    s.pool.closed = true := by
  obtain ⟨c, hc, hmark⟩ := hcleared
  exact h.closed c hc (Caller.hasClosed_of_hasCleared hmark)

/-- `Deserted` implies `closed`, if there were workers at all. -/
theorem closed_of_deserted (hstaffed : s.pool.Staffed workers capacity) (hpos : 0 < workers)
    (hdeserted : s.pool.Deserted) : s.pool.closed = true := by
  obtain ⟨worker, hworker⟩ : ∃ worker, worker ∈ s.pool.workers :=
    List.exists_mem_of_length_pos (by rw [hstaffed.staff]; exact hpos)
  cases hclosed : s.pool.closed with
  | true => rfl
  | false =>
    have hstays := hstaffed.stay hclosed worker hworker
    rw [hdeserted worker hworker] at hstays
    exact Bool.noConfusion hstays

theorem of_start (workers capacity : Nat) :
    Closes workers (Shared.start J workers capacity) .empty where
  closed := by simp [Shared.start]
  unclosed := fun _ => rfl
  cleared := fun _ => List.nil_suffix
  awake := fun ⟨_, hc, _⟩ => by simp [Shared.start] at hc
  deserted := fun _ _ => List.nil_suffix

/-- **A `WorkMove`,** with which callers may be woken. -/
theorem after_workMove (h : Closes workers s l) {old new : Worker J} {wakes : Bool}
    (hold : s.pool.workers[w]? = some old) (hmove : s.pool.WorkMove w old new p wakes)
    (how : Ending) :
    Closes workers (s.worked p wakes) (l.worked how old new) := by
  -- A worker neither opens nor closes the pool, and takes jobs from the queue at most.
  have hclosed : p.closed = s.pool.closed := hmove.bounds.2
  have hqueue : p.queue <:+ s.pool.queue := ⟨_, hmove.queue_eq.symm⟩
  have hcleared : (s.worked p wakes).Cleared → s.Cleared := fun ⟨c, hc, hmark⟩ =>
    let ⟨c₀, hc₀, _, hsame⟩ := Shared.exists_of_mem_worked hc
    ⟨c₀, hc₀, hsame ▸ hmark⟩
  constructor
  · intro c hc hmark
    obtain ⟨c₀, hc₀, hsame, -⟩ := Shared.exists_of_mem_worked hc
    exact hclosed.trans (h.closed c₀ hc₀ (hsame ▸ hmark))
  · exact fun hopen => h.unclosed (hclosed.symm.trans hopen)
  · exact fun hc => hqueue.trans (h.cleared (hcleared hc))
  · intro hc hasleep
    rw [Shared.worked, hmove.workers_eq] at hasleep
    rcases List.mem_or_eq_of_mem_set hasleep with hold | hnew
    · exact h.awake (hcleared hc) hold
    · exact Bool.noConfusion
        ((hmove.sleeps_open hnew.symm).symm.trans (h.closed_of_cleared (hcleared hc)))
  · intro hpos hdeserted
    have hnew : new ∈ p.workers := by
      rw [hmove.workers_eq]
      exact List.mem_set (List.getElem?_eq_some_iff.1 hold).1 new
    rw [Shared.worked, (hmove.exits (hdeserted new hnew)).2]
    exact List.nil_suffix

/-- **A caller comes,** and stands at `r.caller`. -/
theorem after_enter (h : Closes workers s l) (r : Request J) (before : List Nat) :
    Closes workers { s with callers := s.callers ++ [r.caller] } { l with before } := by
  -- The newcomer has cleared nothing, so the clearing was another one's.
  have hcleared : Shared.Cleared { s with callers := s.callers ++ [r.caller] } → s.Cleared := by
    rintro ⟨c, hc, hmark⟩
    rcases List.mem_append.1 hc with hold | hnew
    · exact ⟨c, hold, hmark⟩
    · rw [List.mem_singleton.1 hnew, (Caller.entering_marks r).2.1] at hmark
      exact Bool.noConfusion hmark
  constructor
  · intro c hc hmark
    rcases List.mem_append.1 hc with hold | hnew
    · exact h.closed c hold hmark
    · rw [List.mem_singleton.1 hnew, (Caller.entering_marks r).1] at hmark
      exact Bool.noConfusion hmark
  · exact h.unclosed
  · exact fun hc => h.cleared (hcleared hc)
  · exact fun hc => h.awake (hcleared hc)
  · exact h.deserted

section Callers

variable {callers : List (Caller J)} {owned : List Nat}

/-- **A job is put in:** it is late if the pool is closed. -/
theorem after_push (h : Closes workers s l) (hstaffed : s.pool.Staffed workers capacity)
    (hclosed : ∀ c ∈ callers, c.hasClosed = true → s.pool.closed = true)
    (hcleared : Shared.Cleared ⟨p, callers, owned⟩ → s.Cleared) {job : J}
    (hpush : s.pool.push job = some p) :
    Closes workers ⟨p, callers, owned⟩
      { l with
        accepted := l.accepted ++ [job]
        late := if s.pool.closed then l.late ++ [job] else l.late } := by
  obtain ⟨-, rfl⟩ := Pool.eq_of_push hpush
  -- The job is late if the pool is closed, and waits behind those that wait.
  have hlate : s.pool.closed = true → s.pool.queue <:+ l.late →
      s.pool.queue ++ [job] <:+ if s.pool.closed then l.late ++ [job] else l.late := by
    rintro hc ⟨more, hmore⟩
    exact ⟨more, by rw [if_pos hc, ← List.append_assoc, hmore]⟩
  constructor
  · exact hclosed
  · intro hopen
    rw [show s.pool.closed = false from hopen]
    exact h.unclosed hopen
  · intro hc
    exact hlate (h.closed_of_cleared (hcleared hc)) (h.cleared (hcleared hc))
  · exact fun hc => h.awake (hcleared hc)
  · exact fun hpos hdeserted =>
      hlate (closed_of_deserted hstaffed hpos hdeserted) (h.deserted hpos hdeserted)

/-- **Workers are woken,** as `Woken` says. -/
theorem after_waking (h : Closes workers s l)
    (hclosed : ∀ c ∈ callers, c.hasClosed = true → s.pool.closed = true)
    (hcleared : Shared.Cleared ⟨p, callers, owned⟩ → s.Cleared) (hwoken : s.pool.Woken p)
    (hp : p = { s.pool with workers := p.workers }) : Closes workers ⟨p, callers, owned⟩ l := by
  have hremaining := hwoken.remaining
  have hasleep := hwoken.asleep
  generalize p.workers = woken at hp hremaining hasleep
  subst hp
  constructor
  · exact hclosed
  · exact h.unclosed
  · exact fun hc => h.cleared (hcleared hc)
  · exact fun hc hmem => h.awake (hcleared hc) (hasleep hmem)
  · intro hpos hdeserted
    refine h.deserted hpos (Pool.deserted_iff.2 (hremaining ▸ ?_))
    exact Pool.deserted_iff.1 hdeserted

/-- **A `CallerMove`,** by the four cases of `CallerMove.effect`. -/
theorem after_callerMove (h : Closes workers s l) (hstaffed : s.pool.Staffed workers capacity)
    {old new : Caller J} (hold : s.callers[i]? = some old) (hmove : s.CallerMove old new p) :
    Closes workers ⟨p, s.callers.set i new, owned⟩ (l.called s.pool old new) := by
  have hmem : old ∈ s.callers := List.mem_of_getElem? hold
  obtain ⟨hmarkClosed, hmarkCleared, -⟩ := hmove.marks
  -- Nobody but the one who closes or drops comes to have done so.
  have hclosed : old ≠ .closing → ∀ c ∈ s.callers.set i new, c.hasClosed = true →
      s.pool.closed = true := by
    intro hne c hc hmark
    rcases List.mem_or_eq_of_mem_set hc with hc | rfl
    · exact h.closed c hc hmark
    · exact h.closed old hmem ((hmarkClosed hmark).resolve_right hne)
  have hcleared : old ≠ .clearing →
      Shared.Cleared ⟨p, s.callers.set i new, owned⟩ → s.Cleared := by
    rintro hne ⟨c, hc, hmark⟩
    rcases List.mem_or_eq_of_mem_set hc with hc | rfl
    · exact ⟨c, hc, hmark⟩
    · exact ⟨old, hmem, (hmarkCleared hmark).resolve_right hne⟩
  rcases hmove.effect l with ⟨job, rfl, hpush, heq⟩ | ⟨rfl, rfl, heq⟩ | ⟨rfl, rfl, heq⟩
    | ⟨hclosing, hclearing, hwoken, hp, heq⟩
  · rw [heq]
    exact h.after_push hstaffed (hclosed (by simp)) (hcleared (by simp)) hpush
  · rw [heq]
    exact ⟨fun _ _ _ => rfl, fun hopen => Bool.noConfusion hopen,
      fun hc => h.cleared (hcleared (by simp) hc), fun hc => h.awake (hcleared (by simp) hc),
      h.deserted⟩
  · rw [heq]
    exact ⟨hclosed (by simp), h.unclosed, fun _ => List.nil_suffix,
      fun _ => s.pool.asleep_notMem_clear, fun _ _ => List.nil_suffix⟩
  · rw [heq]
    exact h.after_waking (hclosed hclosing) (hcleared hclearing) hwoken hp

end Callers

/-- **In every run** what waits in a pool that is `Cleared` or `Deserted` came late. -/
theorem of_recorded (h : s.Recorded workers capacity l) : Closes workers s l := by
  induction h with
  | refl => exact of_start workers capacity
  | step hbefore hstep how ih =>
    have hstaffed := (agrees_of_recorded hbefore).1.staffed
    cases Shared.moves_of_step hstep with
    | work hold hmove =>
      rw [note_work how hold hmove]
      exact ih.after_workMove hold hmove how
    | enter r => exact ih.after_enter r _
    | caller hmover hold hmove =>
      rw [note_caller how hmover hold]
      exact ih.after_callerMove hstaffed hold hmove

end Closes

end Ledger

namespace Shared

variable {workers capacity : Nat} {s s' : Shared J} {l l' : Ledger J}

/-- The number of callers that are `inserting`. -/
def inserting (s : Shared J) : Nat := s.callers.countP Caller.isInserting

/-- No caller that a worker wakes is `inserting`. -/
theorem inserting_worked (s : Shared J) (p : Pool J) (wakes : Bool) :
    (s.worked p wakes).inserting = s.inserting := by
  cases wakes with
  | false => rfl
  | true =>
    simp only [inserting, worked, if_true, List.countP_map]
    exact congrArg (s.callers.countP ·) (funext fun c => c.wake_marks.2.2)

/-- **A job that comes in after a pool was closed** is late, and uses up one of `s.inserting`. -/
theorem late_of_moves {m : Move J} (hmove : s.Moves m s') (hclosed : s.pool.closed = true)
    (how : Ending) :
    s'.pool.closed = true ∧ ∃ more, (l.note s s' m how).accepted = l.accepted ++ more
      ∧ (l.note s s' m how).late = l.late ++ more
      ∧ more.length + s'.inserting ≤ s.inserting := by
  have hquiet : s'.inserting ≤ s.inserting → ∃ more, l.accepted = l.accepted ++ more
      ∧ l.late = l.late ++ more ∧ more.length + s'.inserting ≤ s.inserting := fun hle =>
    ⟨[], (List.append_nil _).symm, (List.append_nil _).symm, (Nat.zero_add _).symm ▸ hle⟩
  cases hmove with
  | @work w old new p wakes hold hmove =>
    rw [Ledger.note_work how hold hmove]
    exact ⟨hmove.bounds.2.trans hclosed, hquiet (Nat.le_of_eq (s.inserting_worked p wakes))⟩
  | enter r =>
    have hcount : (s.callers ++ [r.caller]).countP Caller.isInserting = s.inserting := by
      simp [inserting, (Caller.entering_marks r).2.2]
    exact ⟨hclosed, hquiet (Nat.le_of_eq hcount)⟩
  | @caller _ i old new p owned hmover hold hmove =>
    rw [Ledger.note_caller how hmover hold]
    have hset := countP_set_add (q := Caller.isInserting) hold new
    -- Nobody finds the pool open any more.
    have hnew : new.isInserting.toNat = 0 := by
      cases hmark : new.isInserting with
      | false => rfl
      | true => exact Bool.noConfusion ((hmove.marks.2.2 hmark).symm.trans hclosed)
    rw [hnew, Nat.add_zero] at hset
    have hle : (s.callers.set i new).countP Caller.isInserting
        ≤ s.callers.countP Caller.isInserting := hset ▸ Nat.le_add_right _ _
    rcases hmove.effect l with ⟨job, rfl, hpush, heq⟩ | ⟨rfl, rfl, heq⟩ | ⟨rfl, rfl, heq⟩
      | ⟨-, -, -, hp, heq⟩
    · obtain ⟨-, rfl⟩ := Pool.eq_of_push hpush
      rw [heq, if_pos hclosed]
      exact ⟨hclosed, [job], rfl, rfl, Nat.le_of_eq ((Nat.add_comm _ _).trans hset)⟩
    · rw [heq]
      exact ⟨rfl, hquiet hle⟩
    · rw [heq]
      exact ⟨hclosed, hquiet hle⟩
    · rw [heq]
      exact ⟨(congrArg Pool.closed hp).trans hclosed, hquiet hle⟩

/-- **After a pool was closed** it stays closed, and no more jobs come in than `s.inserting`
    tells. -/
theorem late_of_closed (h : Runs s l s' l') (hclosed : s.pool.closed = true) :
    s'.pool.closed = true ∧ ∃ more, l'.accepted = l.accepted ++ more ∧ l'.late = l.late ++ more
      ∧ more.length + s'.inserting ≤ s.inserting := by
  induction h with
  | refl => exact ⟨hclosed, [], by simp, by simp, by simp⟩
  | @step s₁ s₂ l₁ m hbefore hstep how ih =>
    obtain ⟨hclosed₁, more, haccepted, hlate, hle⟩ := ih
    obtain ⟨hclosed₂, next, haccepted', hlate', hle'⟩ :=
      late_of_moves (l := l₁) (moves_of_step hstep) hclosed₁ how
    refine ⟨hclosed₂, more ++ next, ?_, ?_, ?_⟩
    · rw [haccepted', haccepted, List.append_assoc]
    · rw [hlate', hlate, List.append_assoc]
    · rw [List.length_append]
      omega

/-- **What a closing pool leaves behind,** seen in `s` and later in `s'`. -/
structure LeavesLate (workers : Nat) (s : Shared J) (l : Ledger J) (s' : Shared J) (l' : Ledger J) :
    Prop where
  /-- Once `s` is closed, the jobs that come in are late, and there are at most `s.inserting` of
      them. -/
  late : s.pool.closed = true → ∃ more, l'.accepted = l.accepted ++ more
    ∧ l'.late = l.late ++ more ∧ more.length + s'.inserting ≤ s.inserting
  /-- Nothing is late before the pool is closed. -/
  unclosed : s.pool.closed = false → l.late = []
  /-- Once `s'` is `Cleared`, a job that is not late was started or dropped. -/
  cleared : s'.Cleared → s'.pool.queue <:+ l'.late
    ∧ l'.accepted.Perm (l'.started ++ l'.dropped ++ s'.pool.queue)
  /-- Nobody sleeps then, so whoever is left of the workers takes the late ones. -/
  awake : s'.Cleared → .asleep ∉ s'.pool.workers
  /-- When `s'` is `Deserted`, only late jobs wait. -/
  deserted : 0 < workers → s'.pool.Deserted → s'.pool.queue <:+ l'.late
  /-- If `s.inserting = 0` when the pool was closed, no job is left. -/
  settled : s.pool.closed = true → l.late = [] → s.inserting = 0 → s'.Cleared →
    s'.pool.queue = [] ∧ l'.accepted.Perm (l'.started ++ l'.dropped)

/-- **A job is left only if it came late:** its submission found the pool open and put it in when
    the pool was closed.  Every other job is started or dropped.  The bound in `LeavesLate.late` is
    `s.inserting`. -/
theorem left_only_if_late (h : s.Recorded workers capacity l) (hruns : Runs s l s' l') :
    LeavesLate workers s l s' l' := by
  have hrecorded : s'.Recorded workers capacity l' := Runs.trans h hruns
  have hcloses := Ledger.Closes.of_recorded hrecorded
  -- What was accepted was started, dropped, or waits.
  have htaken : l'.accepted.Perm (l'.started ++ l'.dropped ++ s'.pool.queue) := by
    have htaken := (Ledger.agrees_of_recorded hrecorded).1.taken
    rw [List.append_assoc] at htaken ⊢
    exact htaken.trans (List.perm_append_comm.append_left l'.started)
  have hlate := fun hclosed => (late_of_closed hruns hclosed).2
  constructor
  · exact hlate
  · exact (Ledger.Closes.of_recorded h).unclosed
  · exact fun hcleared => ⟨hcloses.cleared hcleared, htaken⟩
  · exact hcloses.awake
  · exact hcloses.deserted
  · intro hclosed hnone hnobody hcleared
    -- The pool was open for every submission, so nobody came late and what is left is empty.
    obtain ⟨more, -, hmore, hle⟩ := hlate hclosed
    obtain rfl : more = [] := List.length_eq_zero_iff.1 (by omega)
    have hqueue : s'.pool.queue = [] := by
      have hsuffix := hcloses.cleared hcleared
      rw [hmore, hnone] at hsuffix
      exact List.suffix_nil.1 hsuffix
    refine ⟨hqueue, ?_⟩
    rw [hqueue, List.append_nil] at htaken
    exact htaken

/-- A submission finds the pool open, and a shutdown closes it. -/
def closingSchedule : List (Move Nat × Ending) := [
  (.enter (.submit 5), .returned), (.advance 0, .returned), (.enter .shutDown, .returned),
  (.advance 1, .returned), (.advance 1, .returned), (.advance 1, .returned)]

/-- The queue is dropped and the worker leaves; then the job is put in, and the shutdown ends. -/
def strandingSchedule : List (Move Nat × Ending) := [
  (.advance 1, .returned), (.work 0, .returned), (.advance 0, .returned),
  (.rouse 0 none, .returned), (.advance 1, .returned), (.advance 1, .returned),
  (.advance 1, .returned), (.advance 1, .returned)]

/-- After `closingSchedule` one job is late, for `s.inserting = 1`. -/
theorem left_only_if_late_stranding :
    ∃ (s : Shared Nat) (l : Ledger Nat) (s' : Shared Nat) (l' : Ledger Nat),
      s.Recorded 1 1 l ∧ Runs s l s' l' ∧ s.pool.closed = true ∧ s.inserting = 1
        ∧ l'.late = [5] ∧ LeavesLate 1 s l s' l' := by
  obtain ⟨s, l, s', l', hbefore, hafter, hclosed, hinserting, hlate⟩ :
      ∃ (s : Shared Nat) (l : Ledger Nat) (s' : Shared Nat) (l' : Ledger Nat),
        (start Nat 1 1).follow .empty closingSchedule = some (s, l)
          ∧ s.follow l strandingSchedule = some (s', l') ∧ s.pool.closed = true ∧ s.inserting = 1
          ∧ l'.late = [5] :=
    ⟨_, _, _, _, rfl, rfl, rfl, rfl, rfl⟩
  have hrecorded : s.Recorded 1 1 l := runs_of_follow hbefore
  have hruns : Runs s l s' l' := runs_of_follow hafter
  exact ⟨s, l, s', l', hrecorded, hruns, hclosed, hinserting, hlate,
    left_only_if_late hrecorded hruns⟩

/-- **A job can be stranded:** after the shutdown has dropped what waited and the pool is
    `Deserted`, a job is put in that nobody will ever take, and its caller is told
    `submitted true`.  A pool that has no workers takes jobs too. -/
theorem strands :
    (∃ (s : Shared Nat) (l : Ledger Nat), s.Recorded 1 1 l ∧ s.Cleared ∧ s.pool.Deserted
        ∧ s.pool.queue = [5] ∧ l.accepted = [5] ∧ l.started = [] ∧ l.dropped = []
        ∧ s.callers = [.submitted true, .ended 0] ∧ ∀ w, s.step (.work w) = none)
      ∧ ((Trial.start 0 2).submit (.note 0)).1 = true
      ∧ ((Trial.start 0 2).submit (.note 0)).2.shared.pool.queue = [.note 0]
      ∧ ((Trial.start 0 2).submit (.note 0)).2.shared.pool.Deserted := by
  refine ⟨?_, by decide +kernel, by decide +kernel, ?_⟩
  · -- The schedule of `closingSchedule` shuts the pool down around a submission that found it open.
    obtain ⟨s, l, hfollow, hqueue, haccepted, hstarted, hdropped, hcallers, hworkers⟩ :
        ∃ (s : Shared Nat) (l : Ledger Nat),
          (start Nat 1 1).follow .empty (closingSchedule ++ strandingSchedule) = some (s, l)
            ∧ s.pool.queue = [5] ∧ l.accepted = [5] ∧ l.started = [] ∧ l.dropped = []
            ∧ s.callers = [.submitted true, .ended 0] ∧ s.pool.workers = [.exited] :=
      ⟨_, _, rfl, rfl, rfl, rfl, rfl, rfl, rfl⟩
    refine ⟨s, l, runs_of_follow hfollow, ⟨.ended 0, by simp [hcallers], rfl⟩, ?_, hqueue,
      haccepted, hstarted, hdropped, hcallers, ?_⟩
    · simp [Pool.Deserted, hworkers, Worker.hasExited]
    · intro w
      cases w <;> simp [step, Pool.work, hworkers]
  · have hnobody : ((Trial.start 0 2).submit (.note 0)).2.shared.pool.workers = [] := by
      decide +kernel
    simp [Pool.Deserted, hnobody]

end Shared

end BatchJournal
