import BatchJournal.Proofs.Pool.Places
import BatchJournal.Proofs.Pool.Staff
import Mathlib.Data.List.Perm.Subperm

namespace BatchJournal

/-!
# A record of the jobs of a pool

An observer notes what becomes of every job: when it is put in, taken, ended, done with, or dropped.
He sees no more of a move than where the one who moved stood before and stands after it.  His record
and the pool agree after every move of every interleaving.

* `Ledger.note` — a move is entered into the record.
* `Shared.Runs` — a shared pool and its record, after any moves.
* `Ledger.Balances` — the record against the pool, kept by every move.
* `Ledger.Vouches` — the record against the callers, kept by every move.
* `Ledger.agrees_of_recorded` — the record agrees with the pool and the callers in every run.
-/

variable {J : Type}

/-- How a job comes to its end. -/
inductive Ending where
  /-- It returns. -/
  | returned
  /-- It breaks down. -/
  | brokeDown
deriving DecidableEq, Repr

/-- **What became of the jobs** of a pool so far, each list in the order of time. -/
structure Ledger (J : Type) where
  /-- The jobs that were put in, in that order. -/
  accepted : List J
  /-- Those of `accepted` that were put in when the pool was closed already. -/
  late : List J
  /-- The jobs that workers took, in that order. -/
  started : List J
  /-- The jobs that came to an end. -/
  ended : List J
  /-- Those of `ended` that broke down. -/
  broken : List J
  /-- The jobs that their workers have done with, the bookkeeping included. -/
  completed : List J
  /-- The jobs that were dropped from the queue. -/
  dropped : List J
  /-- For each caller how long `accepted` was when it came. -/
  before : List Nat
deriving Repr

/-! ### Callers -/

/-- The job of the caller is in `Ledger.accepted`. -/
def Caller.tookIn : Caller J → Bool
  | .rousing | .submitted true => true
  | _ => false

/-! ### The record -/

namespace Ledger

/-- Nothing has happened yet. -/
def empty : Ledger J := ⟨[], [], [], [], [], [], [], []⟩

/-- What is noted when a worker goes from `old` to `new`; a job that ends does so `how`. -/
def worked (l : Ledger J) (how : Ending) (old new : Worker J) : Ledger J :=
  let finished := Worker.newly Worker.running? new old
  { l with
    started := l.started ++ Worker.newly Worker.running? old new
    ended := l.ended ++ finished
    broken := l.broken ++ match how with
      | .returned => []
      | .brokeDown => finished
    completed := l.completed ++ Worker.newly Worker.finishing? new old }

/-- What is noted when a caller goes from one place to another, by the pool `p` as it was before. -/
def called (l : Ledger J) (p : Pool J) : Caller J → Caller J → Ledger J
  | .inserting job, .rousing =>
    { l with
      accepted := l.accepted ++ [job]
      late := if p.closed then l.late ++ [job] else l.late }
  | .clearing, _ => { l with dropped := l.dropped ++ p.queue }
  | _, _ => l

/-- **A move is entered:** where the one who moved stood before it and where he stands after it.  If
    it is the end of a job, `how` tells how the job ended. -/
def note (l : Ledger J) (s s' : Shared J) (m : Move J) (how : Ending) : Ledger J :=
  match m with
  | .work w =>
    match s.pool.workers[w]?, s'.pool.workers[w]? with
    | some old, some new => l.worked how old new
    | _, _ => l
  | .enter _ => { l with before := l.before ++ [l.accepted.length] }
  | .advance i | .rouse i _ | .expire i =>
    match s.callers[i]?, s'.callers[i]? with
    | some old, some new => l.called s.pool old new
    | _, _ => l

end Ledger

namespace Shared

/-- **Runs:** a shared pool and its record go on by any moves `m`, and jobs end in any way. -/
inductive Runs (s : Shared J) (l : Ledger J) : Shared J → Ledger J → Prop where
  /-- Nothing happens. -/
  | refl : Runs s l s l
  /-- A move more, which `Ledger.note` records. -/
  | step {s₁ s₂ : Shared J} {l₁ : Ledger J} {m : Move J} (h : Runs s l s₁ l₁)
      (hstep : s₁.step m = some s₂) (how : Ending) : Runs s l s₂ (l₁.note s₁ s₂ m how)

/-- **What can be reached** from `Shared.start workers capacity` and the empty ledger. -/
def Recorded (workers capacity : Nat) (s : Shared J) (l : Ledger J) : Prop :=
  Runs (start J workers capacity) .empty s l

theorem Runs.trans {s s₁ s₂ : Shared J} {l l₁ l₂ : Ledger J} (h : Runs s l s₁ l₁)
    (h' : Runs s₁ l₁ s₂ l₂) : Runs s l s₂ l₂ := by
  induction h' with
  | refl => exact h
  | step _ hstep how ih => exact ih.step hstep how

/-- Follows a schedule as long as `step` gives a state, and keeps the record. -/
def follow (s : Shared J) (l : Ledger J) : List (Move J × Ending) → Option (Shared J × Ledger J)
  | [] => some (s, l)
  | (m, how) :: rest => (s.step m).bind fun s' => follow s' (l.note s s' m how) rest

/-- To `follow` a schedule is to run. -/
theorem runs_of_follow {s s' : Shared J} {l l' : Ledger J} {schedule : List (Move J × Ending)}
    (h : s.follow l schedule = some (s', l')) : Runs s l s' l' := by
  induction schedule generalizing s l with
  | nil =>
    obtain ⟨rfl, rfl⟩ := Prod.mk.inj (Option.some.inj h)
    exact .refl
  | cons entry rest ih =>
    obtain ⟨s₁, hstep, hrest⟩ := Option.bind_eq_some_iff.1 h
    exact (Runs.refl.step hstep entry.2).trans (ih hrest)

end Shared

namespace Ledger

variable {workers capacity : Nat} {p p' : Pool J} {l : Ledger J} {w : Nat}

section Entries

variable {s : Shared J} {m : Move J} {i : Nat} (how : Ending)

/-! ### What is entered -/

/-- For a worker, `note` is `worked`. -/
theorem note_work {old new : Worker J} {wakes : Bool} (hold : s.pool.workers[w]? = some old)
    (hmove : s.pool.WorkMove w old new p wakes) :
    l.note s (s.worked p wakes) (.work w) how = l.worked how old new := by
  have hnew : (s.worked p wakes).pool.workers[w]? = some new := by
    rw [Shared.worked, hmove.workers_eq]
    exact List.getElem?_set_self (List.getElem?_eq_some_iff.1 hold).1
  simp only [note, hold, hnew]

/-- For a caller, `note` is `called`. -/
theorem note_caller {old new : Caller J} {owned : List Nat} (hmover : m.caller? = some i)
    (hold : s.callers[i]? = some old) :
    l.note s ⟨p, s.callers.set i new, owned⟩ m how = l.called s.pool old new := by
  have hnew : (s.callers.set i new)[i]? = some new :=
    List.getElem?_set_self (List.getElem?_eq_some_iff.1 hold).1
  cases m with
  | work | enter => simp [Move.caller?] at hmover
  | advance | rouse | expire =>
    obtain rfl := Option.some.inj hmover
    simp only [note, hold, hnew]

end Entries

/-- **The record grows:** `accepted`, `ended` and `dropped` are prefixes of the later ones. -/
structure Extends (l l' : Ledger J) : Prop where
  /-- The jobs that were put in. -/
  accepted : l.accepted <+: l'.accepted
  /-- The jobs that came to an end. -/
  ended : l.ended <+: l'.ended
  /-- The jobs that were dropped. -/
  dropped : l.dropped <+: l'.dropped

theorem extends_worked (l : Ledger J) (how : Ending) (old new : Worker J) :
    l.Extends (l.worked how old new) :=
  ⟨List.prefix_rfl, List.prefix_append .., List.prefix_rfl⟩

theorem extends_called (l : Ledger J) (p : Pool J) (old new : Caller J) :
    l.Extends (l.called p old new) := by
  unfold called
  split
  · exact ⟨List.prefix_append .., List.prefix_rfl, List.prefix_rfl⟩
  · exact ⟨List.prefix_rfl, List.prefix_rfl, List.prefix_append ..⟩
  · exact ⟨List.prefix_rfl, List.prefix_rfl, List.prefix_rfl⟩

/-! ### The record and the pool -/

/-- **The record balances** with the pool: `accepted` is `started`, waits in `queue` or was
    `dropped`; what was `started` is `running` or has `ended`; what has `ended` is `finishing` or
    `completed`.  The published `depth`, `active`, `completed` and `remaining` are those of the
    record and the workers. -/
structure Balances (workers capacity : Nat) (p : Pool J) (l : Ledger J) : Prop where
  /-- The pool has `workers` workers and room for `capacity` jobs. -/
  staffed : p.Staffed workers capacity
  /-- What was `started` and then what waits stands in the order in which it was put in. -/
  order : (l.started ++ p.queue).Sublist l.accepted
  /-- What was `accepted` was started, waits or was dropped. -/
  taken : l.accepted.Perm (l.started ++ p.queue ++ l.dropped)
  /-- What was `started` is inside of a worker or has ended. -/
  begun : l.started.Perm (p.running ++ l.ended)
  /-- What has `ended` is being finished or completed. -/
  finished : l.ended.Perm (p.finishing ++ l.completed)
  /-- What is `broken` has ended. -/
  broken : l.broken.Sublist l.ended
  /-- `depth` is the length of the queue. -/
  depth : p.depth = p.queue.length
  /-- The queue is within its room. -/
  room : p.queue.length ≤ p.capacity
  /-- `active` counts the workers that `isActive` tells of. -/
  active : p.active = p.workers.countP Worker.isActive
  /-- `completed` runs ahead of the record by the workers who `hasCounted`. -/
  completed : p.completed = l.completed.length + p.workers.countP Worker.hasCounted
  /-- `remaining` counts the workers that `remains` tells of. -/
  remaining : p.remaining = p.workers.countP Worker.remains

theorem balances_start (workers capacity : Nat) :
    Balances workers capacity (Pool.start J workers capacity) .empty where
  staffed := Pool.staffed_start workers capacity
  order := .refl _
  taken := .refl _
  begun := by simp [Pool.running, Pool.start, empty, Worker.running?]
  finished := by simp [Pool.finishing, Pool.start, empty, Worker.finishing?]
  broken := .refl _
  depth := rfl
  room := Nat.zero_le _
  active := by simp [Pool.start, List.countP_replicate, Worker.isActive]
  completed := by simp [Pool.start, List.countP_replicate, Worker.hasCounted, empty]
  remaining := by simp [Pool.start, List.countP_replicate, Worker.remains, Worker.hasExited]

namespace Balances

/-- What is moved from one place to the next stays booked: `lost` leaves `held` for `done`, and
    `gained` comes in. -/
theorem perm_moved {booked held held' done gained lost : List J}
    (hbooked : booked.Perm (held ++ done)) (hmoved : (held' ++ lost).Perm (held ++ gained)) :
    (booked ++ gained).Perm (held' ++ (done ++ lost)) :=
  calc booked ++ gained
    _ |>.Perm (held ++ done ++ gained) := hbooked.append_right gained
    _ |>.Perm (held ++ gained ++ done) := by
      rw [List.append_assoc, List.append_assoc]
      exact List.perm_append_comm.append_left held
    _ |>.Perm (held' ++ lost ++ done) := hmoved.symm.append_right done
    _ |>.Perm (held' ++ (done ++ lost)) := by
      rw [List.append_assoc]
      exact List.perm_append_comm.append_left held'

/-- **A `WorkMove`** keeps `Balances`, with `worked` in the ledger. -/
theorem after_workMove (h : Balances workers capacity p l) {old new : Worker J} {wakes : Bool}
    (hold : p.workers[w]? = some old) (hmove : p.WorkMove w old new p' wakes) (how : Ending) :
    Balances workers capacity p' (l.worked how old new) := by
  obtain ⟨hcapacity, hclosed⟩ := hmove.bounds
  have hworkers := hmove.workers_eq
  have hqueue := hmove.queue_eq
  have hcount : ∀ q : Worker J → Bool,
      p'.workers.countP q + (q old).toNat = p.workers.countP q + (q new).toNat := by
    intro q
    rw [hworkers]
    exact countP_set_add hold new
  have hle : ∀ q : Worker J → Bool, (q old).toNat ≤ p.workers.countP q := fun q =>
    toNat_le_countP hold
  -- What is newly held is noted as begun, over or completed, as much on the one side as on the
  -- other.
  have hrunning : (p'.running ++ Worker.newly Worker.running? new old).Perm
      (p.running ++ Worker.newly Worker.running? old new) := by
    rw [Pool.running, hworkers]
    exact filterMap_set_perm hold hmove.same_running
  have hfinishing : (p'.finishing ++ Worker.newly Worker.finishing? new old).Perm
      (p.finishing ++ Worker.newly Worker.running? new old) := by
    rw [Pool.finishing, hworkers, ← hmove.newly_finishing]
    exact filterMap_set_perm hold hmove.same_finishing
  have hlength := congrArg List.length hqueue
  rw [List.length_append] at hlength
  constructor
  · exact h.staffed.set hworkers hcapacity hclosed fun hexited => (hmove.exits hexited).1
  · have horder := h.order
    rw [hqueue, ← List.append_assoc] at horder
    exact horder
  · have htaken := h.taken
    rw [hqueue, ← List.append_assoc] at htaken
    exact htaken
  · exact perm_moved h.begun hrunning
  · exact perm_moved h.finished hfinishing
  · cases how with
    | returned =>
      show (l.broken ++ []).Sublist (l.ended ++ _)
      rw [List.append_nil]
      exact h.broken.trans (List.sublist_append_left _ _)
    | brokeDown => exact h.broken.append (.refl _)
  · have hdepth := hmove.depth_eq
    rw [h.depth] at hdepth
    omega
  · have hroom := h.room
    omega
  · have hactive := hmove.active_add (h.active ▸ hle Worker.isActive)
    have hset := hcount Worker.isActive
    have hbefore := h.active
    omega
  · have hcompleted := hmove.completed_add
    have hset := hcount Worker.hasCounted
    have hbefore := h.completed
    simp only [Ledger.worked, List.length_append]
    omega
  · have hremaining := hmove.remaining_add (h.remaining ▸ hle Worker.remains)
    have hset := hcount Worker.remains
    have hbefore := h.remaining
    omega

/-- **`rouse`** keeps `Balances`. -/
theorem after_rouse (h : Balances workers capacity p l) {worker : Option Nat}
    (hrouse : p.rouse worker = some p') : Balances workers capacity p' l := by
  -- A worker that wakes holds no job and counts for nothing before and after.
  obtain ⟨hwoken, heq⟩ := Pool.woken_rouse hrouse
  have hstaffed := h.staffed.rouse hrouse
  generalize p'.workers = woken at heq
  subst heq
  exact
    { staffed := hstaffed
      order := h.order
      taken := h.taken
      begun := h.begun.trans (hwoken.running.symm.append_right _)
      finished := h.finished.trans (hwoken.finishing.symm.append_right _)
      broken := h.broken
      depth := h.depth
      room := h.room
      active := h.active.trans hwoken.active.symm
      completed := h.completed.trans (congrArg (_ + ·) hwoken.counted.symm)
      remaining := h.remaining.trans hwoken.remaining.symm }

/-- **`push`** keeps `Balances`, with the job at the end of `accepted`. -/
theorem after_push (h : Balances workers capacity p l) {job : J} {late : List J}
    (hpush : p.push job = some p') :
    Balances workers capacity p' { l with accepted := l.accepted ++ [job], late } := by
  have hstaffed := h.staffed.push hpush
  -- The job is the last one accepted and the last one that waits.
  obtain ⟨hroom, rfl⟩ := Pool.eq_of_push hpush
  exact
    { staffed := hstaffed
      order := by
        rw [← List.append_assoc]
        exact h.order.append (.refl [job])
      taken := by
        have hmore := h.taken.append_right [job]
        refine hmore.trans ?_
        simp only [List.append_assoc]
        exact (List.perm_append_comm.append_left p.queue).append_left l.started
      begun := h.begun
      finished := h.finished
      broken := h.broken
      depth := by simp only [h.depth, List.length_append, List.length_singleton]
      room := by simp only [List.length_append, List.length_singleton]; omega
      active := h.active
      completed := h.completed
      remaining := h.remaining }

/-- **`close`** keeps `Balances`. -/
theorem after_close (h : Balances workers capacity p l) : Balances workers capacity p.close l :=
  { h with staffed := h.staffed.close }

/-- **`clear`** keeps `Balances`, with the queue at the end of `dropped`. -/
theorem after_clear (h : Balances workers capacity p l) :
    Balances workers capacity p.clear { l with dropped := l.dropped ++ p.queue } where
  staffed := h.staffed.clear
  order := by
    have hstarted := (List.sublist_append_left l.started p.queue).trans h.order
    simpa [Pool.clear] using hstarted
  taken := by
    refine h.taken.trans ?_
    simp only [Pool.clear, List.append_nil, List.append_assoc]
    exact List.perm_append_comm.append_left l.started
  begun := h.begun.trans (p.woken_clear.running.symm.append_right _)
  finished := h.finished.trans (p.woken_clear.finishing.symm.append_right _)
  broken := h.broken
  depth := rfl
  room := Nat.zero_le _
  active := h.active.trans p.woken_clear.active.symm
  completed := h.completed.trans (congrArg (_ + ·) p.woken_clear.counted.symm)
  remaining := h.remaining.trans p.woken_clear.remaining.symm

/-- **A `CallerMove`** keeps `Balances`, with `called` in the ledger. -/
theorem after_callerMove {s : Shared J} (h : Balances workers capacity s.pool l) {old new : Caller J}
    (hmove : s.CallerMove old new p') : Balances workers capacity p' (l.called s.pool old new) := by
  cases hmove with
  | puts hpush => exact h.after_push hpush
  | rouses hrouse => exact h.after_rouse hrouse
  | closes => exact h.after_close
  | clears => exact h.after_clear
  | expires hexpire =>
    rcases Caller.expire_cases hexpire with ⟨rfl, rfl⟩ | ⟨rfl, rfl⟩ | ⟨rfl, rfl⟩ <;> exact h
  | looks | refused | finds | waits | begins | seesExits | seesJobs | takesOver | inspects
  | shutsDown => exact h

/-- **An idle pool:** where `depth` and `active` are `0`, every job of `accepted` has ended or was
    dropped. -/
theorem perm_of_idle (h : Balances workers capacity p l) (hdepth : p.depth = 0)
    (hactive : p.active = 0) : l.accepted.Perm (l.ended ++ l.dropped) := by
  have hqueue : p.queue = [] := List.length_eq_zero_iff.1 (h.depth ▸ hdepth)
  have hrunning : p.running = [] := by
    have hnobody := List.countP_eq_zero.1 (h.active ▸ hactive)
    refine List.filterMap_eq_nil_iff.2 fun worker hworker => ?_
    have hinactive := hnobody worker hworker
    cases worker <;> simp_all [Worker.running?, Worker.isActive]
  have htaken := h.taken
  have hbegun := h.begun
  rw [hqueue, List.append_nil] at htaken
  rw [hrunning, List.nil_append] at hbegun
  exact htaken.trans (hbegun.append_right l.dropped)

end Balances

/-! ### The record and the callers -/

/-- **The record vouches** for what the callers were told. -/
structure Vouches (callers : List (Caller J)) (l : Ledger J) : Prop where
  /-- Every caller has its number in `before`. -/
  noted : l.before.length = callers.length
  /-- No number in `before` exceeds the length of `accepted`. -/
  earlier : ∀ n ∈ l.before, n ≤ l.accepted.length
  /-- As many jobs are in `accepted` as callers `tookIn` one. -/
  tookIn : l.accepted.length = callers.countP Caller.tookIn
  /-- Where a caller was told `drained true`, what was put in before it came has ended or was
      dropped. -/
  idle : ∀ {i n : Nat}, callers[i]? = some (.drained true) → l.before[i]? = some n →
    (l.accepted.take n).Subperm (l.ended ++ l.dropped)

namespace Vouches

variable {callers : List (Caller J)} {l' : Ledger J}

/-- What has ended or was dropped stays so when the record `Extends`. -/
theorem subperm_of_extends (h : Vouches callers l) (hextends : l.Extends l') {n : Nat}
    (hn : n ∈ l.before) (hover : (l.accepted.take n).Subperm (l.ended ++ l.dropped)) :
    (l'.accepted.take n).Subperm (l'.ended ++ l'.dropped) := by
  obtain ⟨more, hmore⟩ := hextends.accepted
  rw [← hmore, List.take_append_of_le_length (h.earlier n hn)]
  exact hover.trans (hextends.ended.sublist.append hextends.dropped.sublist).subperm

/-- **A step of a worker** keeps `Vouches`; it may wake callers. -/
theorem after_workMove (h : Vouches callers l) (how : Ending) (old new : Worker J) (wakes : Bool) :
    Vouches (if wakes then callers.map Caller.wake else callers) (l.worked how old new) := by
  have hextends := l.extends_worked how old new
  cases wakes with
  | false => exact ⟨h.noted, h.earlier, h.tookIn, fun hdrained hn =>
      h.subperm_of_extends hextends (List.mem_of_getElem? hn) (h.idle hdrained hn)⟩
  | true =>
    -- No caller is woken to an answer or from one.
    have htookIn : ∀ c : Caller J, c.wake.tookIn = c.tookIn := fun c => by cases c <;> rfl
    have hdrained : ∀ c : Caller J, c.wake = .drained true → c = .drained true := fun c => by
      cases c <;> simp [Caller.wake]
    constructor
    · rw [if_pos rfl, List.length_map]
      exact h.noted
    · exact h.earlier
    · rw [if_pos rfl, List.countP_map]
      exact h.tookIn.trans (congrArg (callers.countP ·) (funext fun c => (htookIn c).symm))
    · intro i n hwoken hn
      rw [if_pos rfl, List.getElem?_map] at hwoken
      obtain ⟨c, hc, hwake⟩ := Option.map_eq_some_iff.1 hwoken
      have hover := h.idle (hc.trans (congrArg some (hdrained c hwake))) hn
      exact h.subperm_of_extends hextends (List.mem_of_getElem? hn) hover

/-- **A caller that comes** keeps `Vouches`, with its number in `before`. -/
theorem after_enter (h : Vouches callers l) (r : Request J) :
    Vouches (callers ++ [r.caller]) { l with before := l.before ++ [l.accepted.length] } where
  noted := by simp [h.noted]
  earlier := by
    intro n hn
    rcases List.mem_append.1 hn with hold | hnew
    · exact h.earlier n hold
    · exact Nat.le_of_eq (List.mem_singleton.1 hnew)
  tookIn := by
    have hnew : r.caller.tookIn = false := by cases r <;> rfl
    simp [h.tookIn, hnew]
  -- The newcomer was told nothing yet.
  idle := by
    intro i n hdrained hn
    rcases Nat.lt_or_ge i callers.length with hi | hi
    · rw [List.getElem?_append_left hi] at hdrained
      rw [List.getElem?_append_left (h.noted ▸ hi)] at hn
      exact h.idle hdrained hn
    · rw [List.getElem?_append_right hi] at hdrained
      have hnew := List.mem_singleton.1 (List.mem_of_getElem? hdrained)
      cases r <;> simp [Request.caller] at hnew

/-- `accepted` grows by one when the caller `tookIn` its job. -/
theorem tookIn_add {s : Shared J} {old new : Caller J} (hmove : s.CallerMove old new p') :
    (l.called s.pool old new).accepted.length + old.tookIn.toNat
      = l.accepted.length + new.tookIn.toNat := by
  cases hmove with
  | puts => simp [called, Caller.tookIn]
  | looks => split <;> rfl
  | begins => split <;> rfl
  | finds => simp only [called, Caller.onIdle]; split <;> rfl
  | clears =>
    rcases Caller.afterClear_cases s.pool.clear with hnew | hnew | hnew <;> rw [hnew] <;> rfl
  | seesExits =>
    rcases Caller.afterClear_cases s.pool with hnew | hnew | hnew <;> rw [hnew] <;> rfl
  | seesJobs => rcases Caller.afterExits_cases s.pool with hnew | hnew <;> rw [hnew] <;> rfl
  | refused | rouses | waits | closes | takesOver | inspects | shutsDown => rfl
  | expires hexpire =>
    rcases Caller.expire_cases hexpire with ⟨rfl, rfl⟩ | ⟨rfl, rfl⟩ | ⟨rfl, rfl⟩ <;> rfl

/-- Who is told `drained true` has seen `depth` and `active` at `0`. -/
theorem idle_of_drained {s : Shared J} {old : Caller J}
    (hmove : s.CallerMove old (.drained true) p') : s.pool.depth = 0 ∧ s.pool.active = 0 := by
  generalize hnew : Caller.drained true = new at hmove
  cases hmove with
  | finds hidle => exact hidle
  | looks | begins => split at hnew <;> simp at hnew
  | clears =>
    rcases Caller.afterClear_cases s.pool.clear with hafter | hafter | hafter <;>
      simp [hafter] at hnew
  | seesExits =>
    rcases Caller.afterClear_cases s.pool with hafter | hafter | hafter <;> simp [hafter] at hnew
  | seesJobs =>
    rcases Caller.afterExits_cases s.pool with hafter | hafter <;> simp [hafter] at hnew
  | refused | puts | rouses | waits | closes | takesOver | inspects | shutsDown => simp at hnew
  | expires hexpire =>
    rcases Caller.expire_cases hexpire with ⟨-, rfl⟩ | ⟨-, rfl⟩ | ⟨-, rfl⟩ <;> simp at hnew

/-- **A `CallerMove`** keeps `Vouches`, as long as the record `Balances`. -/
theorem after_callerMove {s : Shared J} (h : Vouches s.callers l)
    (hbalances : Balances workers capacity s.pool l) {i : Nat} {old new : Caller J}
    (hold : s.callers[i]? = some old) (hmove : s.CallerMove old new p') :
    Vouches (s.callers.set i new) (l.called s.pool old new) := by
  have hextends := l.extends_called s.pool old new
  have hbefore : (l.called s.pool old new).before = l.before := by
    unfold Ledger.called
    split <;> rfl
  constructor
  · rw [hbefore, List.length_set]
    exact h.noted
  · intro n hn
    exact Nat.le_trans (h.earlier n (hbefore ▸ hn)) hextends.accepted.length_le
  · -- What the move took in is what the ledger has more.
    have hadd := tookIn_add (l := l) hmove
    have hset := countP_set_add (q := Caller.tookIn) hold new
    have htookIn := h.tookIn
    omega
  · intro j n hdrained hn
    rw [hbefore] at hn
    refine h.subperm_of_extends hextends (List.mem_of_getElem? hn) ?_
    -- The caller that moved may have been told now; the others keep what they were told.
    by_cases hij : i = j
    · subst hij
      rw [List.getElem?_set_self (List.getElem?_eq_some_iff.1 hold).1] at hdrained
      obtain rfl := Option.some.inj hdrained
      obtain ⟨hdepth, hactive⟩ := idle_of_drained hmove
      exact (List.take_sublist n _).subperm.trans (hbalances.perm_of_idle hdepth hactive).subperm
    · rw [List.getElem?_set_ne hij] at hdrained
      exact h.idle hdrained hn

end Vouches

/-! ### All runs -/

section Runs

variable {s s' : Shared J} {m : Move J}

/-- **Every one of `Moves`** keeps both `Balances` and `Vouches`. -/
theorem agrees_note (hbalances : Balances workers capacity s.pool l)
    (hvouches : Vouches s.callers l) (hmove : s.Moves m s') (how : Ending) :
    Balances workers capacity s'.pool (l.note s s' m how)
      ∧ Vouches s'.callers (l.note s s' m how) := by
  cases hmove with
  | work hold hmove =>
    rw [note_work how hold hmove]
    exact ⟨hbalances.after_workMove hold hmove how, hvouches.after_workMove how _ _ _⟩
  | enter r =>
    exact ⟨{ hbalances with }, hvouches.after_enter r⟩
  | caller hmover hold hmove =>
    rw [note_caller how hmover hold]
    exact ⟨hbalances.after_callerMove hmove, hvouches.after_callerMove hbalances hold hmove⟩

/-- **In every recorded run** the record agrees with the pool and the callers. -/
theorem agrees_of_recorded (h : s.Recorded workers capacity l) :
    Balances workers capacity s.pool l ∧ Vouches s.callers l := by
  induction h with
  | refl =>
    exact ⟨balances_start workers capacity, rfl, fun _ hn => by simp [empty] at hn, rfl,
      fun hdrained => by simp [Shared.start] at hdrained⟩
  | step _ hstep how ih => exact agrees_note ih.1 ih.2 (Shared.moves_of_step hstep) how

end Runs

end Ledger

end BatchJournal