import BatchJournal.Proofs.Pool.Moves
import Mathlib.Data.List.Perm.Basic

namespace BatchJournal

/-!
# Places of workers

What the workers of a pool hold in their hands and what they have counted of it can be read off the
places where they stand.  This module says how a step of one of them changes that, and that waking
sleepers does not.

* `Pool.running`, `Pool.finishing` — the jobs in the hands of the workers.
* `Pool.WorkMove.queue_eq`, `Pool.WorkMove.newly_finishing` — a job goes from hand to hand.
* `Pool.WorkMove.active_add`, `Pool.WorkMove.completed_add` — the published numbers follow.
* `Pool.Woken` — only sleepers are woken.
-/

variable {J : Type}

/-! ### What a worker holds -/

namespace Worker

/-- **What a worker comes to hold** by going from `old` to `new`: `held new`, if `held old` was
    `none`. -/
def newly (held : Worker J → Option J) (old new : Worker J) : List J :=
  match held old with
  | none => (held new).toList
  | some _ => []

/-- The job of the worker counts in `Pool.active`. -/
def isActive : Worker J → Bool
  | .running _ | .leaving _ => true
  | _ => false

/-- The job of the worker counts in `Pool.completed`, but the worker has not done with it. -/
def hasCounted : Worker J → Bool
  | .checking _ | .signalling _ => true
  | _ => false

/-- The worker counts in `Pool.remaining`. -/
def remains (w : Worker J) : Bool := !w.hasExited

end Worker

/-- If `q` holds of the old place, the count is at least one. -/
theorem toNat_le_countP {α : Type} {q : α → Bool} {l : List α} {i : Nat} {old : α}
    (h : l[i]? = some old) : (q old).toNat ≤ l.countP q := by
  cases hq : q old with
  | false => exact Nat.zero_le _
  | true => exact List.countP_pos_iff.2 ⟨old, List.mem_of_getElem? h, hq⟩

/-- One worker in another place changes a count by what the two places count: `List.countP_set`
    without its subtraction. -/
theorem countP_set_add {α : Type} {q : α → Bool} {l : List α} {i : Nat} {old : α}
    (h : l[i]? = some old) (new : α) :
    (l.set i new).countP q + (q old).toNat = l.countP q + (q new).toNat := by
  obtain ⟨hlt, rfl⟩ := List.getElem?_eq_some_iff.1 h
  have hle := toNat_le_countP (q := q) h
  rw [List.countP_set hlt]
  cases hold : q l[i] <;> cases hnew : q new <;>
    simp only [hold, Bool.toNat_true, Bool.toNat_false, Bool.false_eq_true, if_true, if_false]
      at hle ⊢ <;>
    omega

/-- **One worker in another place** changes what is `held` by what `newly` tells of the two
    places. -/
theorem filterMap_set_perm {held : Worker J → Option J} {l : List (Worker J)} {w : Nat}
    {old new : Worker J} (h : l[w]? = some old)
    (hsame : held old = none ∨ held new = none ∨ held old = held new) :
    ((l.set w new).filterMap held ++ Worker.newly held new old).Perm
      (l.filterMap held ++ Worker.newly held old new) := by
  induction l generalizing w with
  | nil => simp at h
  | cons a l ih =>
    cases w with
    | zero =>
      obtain rfl : a = old := by simpa using h
      simp only [List.set_cons_zero, List.filterMap_cons, Worker.newly]
      cases hold : held a with
      | none =>
        cases hnew : held new with
        | none => exact .refl _
        | some j => simpa using (List.perm_append_singleton j _).symm
      | some i =>
        cases hnew : held new with
        | none => simp
        | some j =>
          -- It holds what it held before.
          obtain rfl : i = j := by simpa [hold, hnew] using hsame
          exact .refl _
    | succ w =>
      have hrest := ih (by simpa using h)
      simp only [List.set_cons_succ, List.filterMap_cons]
      cases held a with
      | none => exact hrest
      | some j => exact hrest.cons j

namespace Pool

/-- The jobs that workers are inside of: `Worker.running?`. -/
def running (p : Pool J) : List J := p.workers.filterMap Worker.running?

/-- The jobs that have ended and whose bookkeeping is not done: `Worker.finishing?`. -/
def finishing (p : Pool J) : List J := p.workers.filterMap Worker.finishing?

namespace WorkMove

variable {p p' : Pool J} {w : Nat} {old new : Worker J} {wakes : Bool}

/-- A job that is newly `running?` comes from the front of `p.queue`. -/
theorem queue_eq (h : p.WorkMove w old new p' wakes) :
    p.queue = Worker.newly Worker.running? old new ++ p'.queue := by
  cases h with
  | takes hqueue => exact hqueue
  | leaves | sleeps | ends | uncounts | signals => rfl
  | counts => split <;> rfl
  | checks => split <;> rfl

/-- A worker with a `running?` job stays with this one. -/
theorem same_running (h : p.WorkMove w old new p' wakes) :
    old.running? = none ∨ new.running? = none ∨ old.running? = new.running? := by
  cases h <;> simp [Worker.running?]

/-- A worker with a `finishing?` job stays with this one. -/
theorem same_finishing (h : p.WorkMove w old new p' wakes) :
    old.finishing? = none ∨ new.finishing? = none ∨ old.finishing? = new.finishing? := by
  cases h with
  | takes | leaves | sleeps | ends | uncounts | signals => simp [Worker.finishing?]
  | counts => split <;> simp [Worker.finishing?]
  | checks => split <;> simp [Worker.finishing?]

/-- What is newly `finishing?` is what is no longer `running?`. -/
theorem newly_finishing (h : p.WorkMove w old new p' wakes) :
    Worker.newly Worker.finishing? old new = Worker.newly Worker.running? new old := by
  cases h with
  | takes | leaves | sleeps | ends | uncounts | signals => rfl
  | counts => split <;> rfl
  | checks => split <;> rfl

/-- `depth` goes down with each job that is newly `running?`. -/
theorem depth_eq (h : p.WorkMove w old new p' wakes) :
    p'.depth = p.depth - (Worker.newly Worker.running? old new).length := by
  cases h with
  | takes | leaves | sleeps | ends | uncounts | signals => rfl
  | counts => split <;> rfl
  | checks => split <;> rfl

/-- `active` follows `Worker.isActive`. -/
theorem active_add (h : p.WorkMove w old new p' wakes) (hpos : old.isActive.toNat ≤ p.active) :
    p'.active + old.isActive.toNat = p.active + new.isActive.toNat := by
  cases h with
  | takes | leaves | sleeps | ends | signals => rfl
  | uncounts => exact Nat.sub_add_cancel hpos
  | counts => split <;> rfl
  | checks => split <;> rfl

/-- `completed` runs ahead of `finishing` by the workers who `hasCounted`. -/
theorem completed_add (h : p.WorkMove w old new p' wakes) :
    p'.completed + old.hasCounted.toNat
      = p.completed + (Worker.newly Worker.finishing? new old).length + new.hasCounted.toNat := by
  cases h with
  | takes | leaves | sleeps | ends | uncounts | signals => rfl
  | counts => split <;> rfl
  | checks => split <;> rfl

/-- `remaining` follows `Worker.remains`. -/
theorem remaining_add (h : p.WorkMove w old new p' wakes)
    (hpos : old.remains.toNat ≤ p.remaining) :
    p'.remaining + old.remains.toNat = p.remaining + new.remains.toNat := by
  cases h with
  | takes | sleeps | ends | uncounts | signals => rfl
  | leaves => exact Nat.sub_add_cancel hpos
  | counts => split <;> rfl
  | checks => split <;> rfl

/-- A worker that becomes `exited` leaves a closed pool over an empty queue. -/
theorem exits (h : p.WorkMove w old new p' wakes) (hexited : new.hasExited = true) :
    p.closed = true ∧ p'.queue = [] := by
  cases h with
  | leaves hqueue hclosed => exact ⟨hclosed, hqueue⟩
  | takes | sleeps | ends | uncounts | signals => simp [Worker.hasExited] at hexited
  | counts => split at hexited <;> simp [Worker.hasExited] at hexited
  | checks => split at hexited <;> simp [Worker.hasExited] at hexited

/-- A worker that becomes `asleep` does so over an open pool. -/
theorem sleeps_open (h : p.WorkMove w old new p' wakes) (hasleep : new = .asleep) :
    p.closed = false := by
  cases h with
  | sleeps hqueue hopen => exact hopen
  | takes | leaves | ends | uncounts | signals => simp at hasleep
  | counts => split at hasleep <;> simp at hasleep
  | checks => split at hasleep <;> simp at hasleep

end WorkMove

/-! ### Waking -/

/-- **Only sleepers are woken:** `p'` has the jobs and the counts of `p`. -/
structure Woken (p p' : Pool J) : Prop where
  /-- The `running` jobs, in some order. -/
  running : p'.running.Perm p.running
  /-- The `finishing` jobs, in some order. -/
  finishing : p'.finishing.Perm p.finishing
  /-- The workers that `isActive` counts. -/
  active : p'.workers.countP Worker.isActive = p.workers.countP Worker.isActive
  /-- The workers that `hasCounted` counts. -/
  counted : p'.workers.countP Worker.hasCounted = p.workers.countP Worker.hasCounted
  /-- The workers that `remains` counts. -/
  remaining : p'.workers.countP Worker.remains = p.workers.countP Worker.remains
  /-- Nobody falls asleep. -/
  asleep : .asleep ∈ p'.workers → .asleep ∈ p.workers

variable {p p' : Pool J}

/-- `clear` leaves nobody `asleep`. -/
theorem asleep_notMem_clear (p : Pool J) : .asleep ∉ p.clear.workers := by
  intro hasleep
  obtain ⟨worker, -, hwake⟩ := List.mem_map.1 hasleep
  cases worker <;> simp [Worker.wake] at hwake

/-- `clear` wakes sleepers and nobody else. -/
theorem woken_clear (p : Pool J) : p.Woken p.clear := by
  -- Waking changes no worker that holds a job, and none that counts.
  have hheld : ∀ held : Worker J → Option J, (∀ worker, held worker.wake = held worker) →
      (p.workers.map Worker.wake).filterMap held = p.workers.filterMap held := by
    intro held hwake
    rw [List.filterMap_map]
    exact congrArg (p.workers.filterMap ·) (funext hwake)
  have hcounted : ∀ q : Worker J → Bool, (∀ worker, q worker.wake = q worker) →
      (p.workers.map Worker.wake).countP q = p.workers.countP q := by
    intro q hwake
    rw [List.countP_map]
    exact congrArg (p.workers.countP ·) (funext hwake)
  constructor
  · exact .of_eq (hheld _ fun worker => by cases worker <;> rfl)
  · exact .of_eq (hheld _ fun worker => by cases worker <;> rfl)
  · exact hcounted _ fun worker => by cases worker <;> rfl
  · exact hcounted _ fun worker => by cases worker <;> rfl
  · exact hcounted _ fun worker => by cases worker <;> rfl
  · exact fun hasleep => absurd hasleep p.asleep_notMem_clear

/-- `rouse` wakes one sleeper or nobody, and changes `workers` only. -/
theorem woken_rouse {worker : Option Nat} (h : p.rouse worker = some p') :
    p.Woken p' ∧ p' = { p with workers := p'.workers } := by
  rcases rouse_cases h with ⟨-, rfl⟩ | ⟨w, hasleep, rfl⟩
  · exact ⟨⟨.refl _, .refl _, rfl, rfl, rfl, id⟩, rfl⟩
  · -- The one worker that wakes held nothing before and holds nothing after.
    have hheld : ∀ held : Worker J → Option J, held .asleep = none → held .looking = none →
        ((p.workers.set w .looking).filterMap held).Perm (p.workers.filterMap held) := by
      intro held hold hnew
      have hset := @filterMap_set_perm _ held _ _ _ .looking hasleep (.inl hold)
      simpa only [Worker.newly, hold, hnew, Option.toList_none, List.append_nil] using hset
    have hcounted : ∀ q : Worker J → Bool, q .asleep = q .looking →
        (p.workers.set w .looking).countP q = p.workers.countP q := by
      intro q hsame
      have hset := @countP_set_add _ q _ _ _ hasleep .looking
      rw [hsame] at hset
      exact Nat.add_right_cancel hset
    have hsleeper : .asleep ∈ p.workers.set w .looking → .asleep ∈ p.workers := fun hmem =>
      (List.mem_or_eq_of_mem_set hmem).elim id nofun
    exact ⟨⟨hheld _ rfl rfl, hheld _ rfl rfl, hcounted _ rfl, hcounted _ rfl, hcounted _ rfl,
      hsleeper⟩, rfl⟩

end Pool

end BatchJournal
