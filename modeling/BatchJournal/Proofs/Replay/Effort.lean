import BatchJournal.Proofs.Pool.Effort
import BatchJournal.Proofs.Replay.Progress

namespace BatchJournal

/-!
# A pass comes to an end

A pass visits each id once and makes one attempt on each entry, in which every mutation takes a
bounded number of acts of the pass and of the workers.  `Journal.effort` adds them up; as each act
that gets the pass on makes it less, there are no more such acts than that, whatever their order.

* `Journal.effort_worker` — a worker that acts has less to do.
* `Journal.effort_move` — so has a pass.
* `Journal.Undisturbed.countP_serves_le` — there are no more such acts than there is to do at the
  beginning.
-/

/-- How much is to be done inside of a job: less than the `8` of one that waits. -/
def Task.effort : Task → Nat
  | .waiting _ => 7
  | .answered _ _ => 6

/-- How much a pass has to do, from where it stands, for the entry that it has in hand; `size` tells
    how many mutations an entry has.  A mutation still to be sorted counts 16, one still to be
    handed out 15 and one unanswered 2, beside the 8 of its job in the pool. -/
def Phase.effort (size : Entry → Nat) : Phase → Nat
  | .finished _ => 0
  | .between => 1
  | .failed _ _ => 2
  | .deleting _ _ => 3
  | .collecting _ pending _ => 4 + 2 * pending
  | .offering _ rest pending _ => 5 + 15 * rest.length + 2 * pending
  | .rousing _ rest pending _ => 7 + 15 * rest.length + 2 * pending
  | .inserting _ _ rest pending _ => 19 + 15 * rest.length + 2 * pending
  | .sorting _ rest live _ => 12 + 16 * rest.length + 15 * live.length
  | .resting _ ms => 13 + 16 * ms.length
  | .pacing _ ms => 14 + 16 * ms.length
  | .fetched e => 15 + 16 * size e

namespace Journal

variable {W : WritePath} {start g g' : Journal W} {p p' : Pass} {a : Act W} {acts : List (Act W)}

/-- How many mutations `decode` finds in the entry. -/
def size (g : Journal W) (e : Entry) : Nat :=
  match g.registry.decode e.version e.payload with
  | .ok ms => ms.length
  | .error _ => 0

/-- How much there is to do when `id` comes up. -/
def visitEffort (g : Journal W) (id : BatchId) : Nat :=
  match g.entries.get? id with
  | some e => 16 + 16 * g.size e
  | none => 1

/-- How much there is to do for the ids that `scan` has still to visit. -/
def scanEffort (g : Journal W) (scan : Scan) : Nat := (scan.ids.map g.visitEffort).sum

/-- How much the pass under way has still to do, for its ids and in its phase. -/
def passEffort (g : Journal W) : Nat :=
  match g.pass with
  | some p => g.scanEffort p.scan + p.phase.effort g.size
  | none => 0

/-- **How much there is to do** for the pass under way, for the workers, and for the strays. -/
def effort (g : Journal W) : Nat :=
  g.passEffort + g.pool.effort Task.effort + g.strays.length

/-- The `passEffort` of a pass `p`. -/
theorem passEffort_eq (hpass : g.pass = some p) :
    g.passEffort = g.scanEffort p.scan + p.phase.effort g.size := by
  rw [passEffort, hpass]

theorem taskEffort_bounds (t : Task) : 5 < t.effort ∧ t.effort < 8 := by
  cases t <;> simp [Task.effort]

/-- **A worker that acts** leaves less `effort`. -/
theorem effort_worker {act : WorkerAct W} (hstep : g.workerStep act = some g') :
    g'.effort < g.effort := by
  obtain ⟨path, pool, mailbox, strays, rfl, hpool⟩ := changes_of_workerStep hstep
  suffices hless : pool.effort Task.effort + strays.length
      < g.pool.effort Task.effort + g.strays.length by
    have hsame : ({ g with path, pool, mailbox, strays } : Journal W).passEffort = g.passEffort := rfl
    simp only [effort, hsame]
    omega
  rcases hpool with ⟨rfl, hstrays⟩ | ⟨rfl, ⟨w, wakes, hwork⟩ | ⟨w, d, r, htask, rfl⟩⟩
  · omega
  · have hworker := Pool.effort_work taskEffort_bounds hwork
    omega
  · -- The job is one step further, inside of the same worker.
    obtain ⟨worker, hworker, hrunning⟩ := exists_worker_of_task? htask
    have hplaced := @Pool.effort_place _ g.pool w Task.effort _ hworker (.running (.answered d r))
    obtain rfl : worker = .running (.waiting d) := by
      cases worker with
      | running t => exact congrArg _ (Option.some.inj hrunning)
      | _ => simp [Worker.running?] at hrunning
    simp only [Worker.effort, Task.effort] at hplaced
    omega

/-- `size` reads `registry` only. -/
theorem size_congr (h : g'.registry = g.registry) : g'.size = g.size := by
  funext e
  rw [size, size, h]

/-- There is less `effort` if the pass has less, beside what it puts into the pool. -/
theorem effort_lt {k : Nat} (hpass : g.pass = some p) (hpass' : g'.pass = some p')
    (hstrays : g'.strays = g.strays)
    (hpool : g'.pool.effort Task.effort ≤ g.pool.effort Task.effort + k)
    (hless : g'.scanEffort p'.scan + p'.phase.effort g'.size + k
      < g.scanEffort p.scan + p.phase.effort g.size) : g'.effort < g.effort := by
  rw [effort, effort, passEffort_eq hpass, passEffort_eq hpass', hstrays]
  omega

/-- A pass that goes to another place of the same scan, for which nothing new is stored: the phase
    decides. -/
theorem effort_lt_of_phase {phase : Phase} {k : Nat} (hpass : g.pass = some p)
    (hphase : p.phase = phase) (hpass' : g'.pass = some p') (hscan : p'.scan = p.scan)
    (hregistry : g'.registry = g.registry) (hstrays : g'.strays = g.strays)
    (hvisit : ∀ id, g'.visitEffort id ≤ g.visitEffort id)
    (hpool : g'.pool.effort Task.effort ≤ g.pool.effort Task.effort + k)
    (hless : p'.phase.effort g.size + k < phase.effort g.size) : g'.effort < g.effort := by
  refine effort_lt hpass hpass' hstrays hpool ?_
  have hscanned : g'.scanEffort p.scan ≤ g.scanEffort p.scan :=
    List.sum_le_sum fun id _ => hvisit id
  rw [hscan, hphase, size_congr hregistry]
  omega

/-- A pass that visits the next id of its scan: its `visitEffort` becomes the effort of the
    phase. -/
theorem effort_lt_of_visit {id : BatchId} {scan : Scan} {phase : Phase} (hpass : g.pass = some p)
    (hphase : p.phase = .between) (hids : p.scan.ids = id :: scan.ids)
    (hless : phase.effort g.size < g.visitEffort id + 1) :
    (g.passAt { p with scan } phase).effort < g.effort := by
  refine @effort_lt _ _ _ _ _ 0 hpass rfl rfl (Nat.le_refl _) ?_
  have hscanned : g.scanEffort p.scan = g.visitEffort id + g.scanEffort scan := by
    rw [scanEffort, hids, List.map_cons, List.sum_cons, scanEffort]
  rw [hscanned, hphase]
  show g.scanEffort scan + phase.effort g.size + 0 < g.visitEffort id + g.scanEffort scan + 1
  omega

/-- **What is gone, or is stored as before,** counts no more than before, if `count` gives at least
    `least`, which is what counts where there is no entry. -/
theorem getD_map_get?_le {count : Entry → Nat} {least : Nat} (hleast : ∀ e, least ≤ count e)
    {id : BatchId} (h : g'.entries.get? id = none ∨ g'.entries.get? id = g.entries.get? id) :
    ((g'.entries.get? id).map count).getD least ≤ ((g.entries.get? id).map count).getD least := by
  rcases h with hgone | hsame
  · rw [hgone]
    cases g.entries.get? id with
    | none => exact Nat.le_refl _
    | some e => exact hleast e
  · rw [hsame]

theorem visitEffort_eq (g : Journal W) (id : BatchId) :
    g.visitEffort id = ((g.entries.get? id).map fun e => 16 + 16 * g.size e).getD 1 := by
  rw [visitEffort]
  cases g.entries.get? id <;> rfl

/-- What is gone, or is stored as before, has no more `visitEffort` than before. -/
theorem visitEffort_le (hregistry : g'.registry = g.registry) {id : BatchId}
    (h : g'.entries.get? id = none ∨ g'.entries.get? id = g.entries.get? id) :
    g'.visitEffort id ≤ g.visitEffort id := by
  rw [visitEffort_eq, visitEffort_eq, size_congr hregistry]
  exact getD_map_get?_le (fun e => by omega) h

/-- **Most moves** leave store and pool alone, so that `Phase.effort` decides. -/
theorem effort_lt_of_place {phase : Phase} (hpass : g.pass = some p) (hphase : p.phase = phase)
    (hpass' : g'.pass = some p') (hscan : p'.scan = p.scan)
    (hsame : g'.registry = g.registry ∧ g'.store = g.store ∧ g'.strays = g.strays
      ∧ g'.pool = g.pool)
    (hless : p'.phase.effort g.size < phase.effort g.size) : g'.effort < g.effort := by
  obtain ⟨hregistry, hstore, hstrays, hpool⟩ := hsame
  refine @effort_lt_of_phase _ _ _ _ _ _ 0 hpass hphase hpass' hscan hregistry hstrays
    (fun id => visitEffort_le hregistry (.inr ?_)) ?_ hless
  · rw [entries, hstore, entries]
  · exact Nat.le_of_eq (congrArg _ hpool)

/-- **A `PassMove` that `serves`** leaves less `effort`. -/
theorem effort_move {act : PassAct} (hsound : g.store.Sound) (hpass : g.pass = some p)
    (hmove : g.PassMove p act g') (hserves : Act.serves (.pass act : Act W) = true) :
    g'.effort < g.effort := by
  have hget := (get?_of_passMove hsound hmove).2
  cases hmove with
  | exhausted hphase hscan | stopped hphase hstop | wokenToStop hphase hstop
  | tooYoung hphase hage | undecodable hphase hage hdecode | refusedClosed hphase hclosed
  | refusedFull hphase hfull | collectedError hphase hmailbox | counted hphase | woken hphase
  | attempted hphase =>
    refine effort_lt_of_place hpass hphase rfl rfl ⟨rfl, rfl, rfl, rfl⟩ ?_
    simp only [Phase.effort, List.length_nil]
    omega
  | skipped hphase hscan =>
    obtain ⟨id, hids, hnone⟩ := Scan.visit_eq_some_iff.1 hscan
    refine effort_lt_of_visit hpass hphase hids ?_
    rw [visitEffort, hnone]
    exact Nat.lt_succ_self 1
  | fetched hphase hscan =>
    obtain ⟨id, hids, hfound⟩ := Scan.visit_eq_some_iff.1 hscan
    refine effort_lt_of_visit hpass hphase hids ?_
    simp only [visitEffort, hfound, Phase.effort]
    omega
  | accepted hphase hage hdecode hnext =>
    rename_i e now ms phase
    have hsize : g.size e = ms.length := by rw [size, hdecode]
    refine effort_lt_of_place hpass hphase rfl rfl ⟨rfl, rfl, rfl, rfl⟩ ?_
    rcases hnext with rfl | rfl <;> simp only [Phase.effort, hsize, List.length_nil] <;> omega
  | paced hphase hnext =>
    refine effort_lt_of_place hpass hphase rfl rfl ⟨rfl, rfl, rfl, rfl⟩ ?_
    rcases hnext with rfl | rfl <;> simp only [Phase.effort, List.length_nil] <;> omega
  | dropped hphase htruncated hlate | kept hphase hkept | offered hphase hopen =>
    refine effort_lt_of_place hpass hphase rfl rfl ⟨rfl, rfl, rfl, rfl⟩ ?_
    simp only [Phase.effort, List.length_cons, List.length_append, List.length_nil]
    omega
  | offeredAll hphase =>
    refine effort_lt_of_place hpass hphase rfl rfl ⟨rfl, rfl, rfl, rfl⟩ ?_
    unfold awaiting
    split <;> simp only [Phase.effort, List.length_nil] <;> omega
  | collected hphase hmailbox =>
    refine effort_lt_of_place hpass hphase rfl rfl ⟨rfl, rfl, rfl, rfl⟩ ?_
    unfold awaiting
    split <;> simp only [Phase.effort] <;> omega
  | inserted hphase hpush =>
    -- The job is eight steps in the pool, and an answer that is waited for.
    refine effort_lt_of_phase hpass hphase rfl rfl rfl rfl
      (fun id => visitEffort_le rfl (.inr rfl)) (Nat.le_of_eq (Pool.effort_push hpush)) ?_
    simp only [Phase.effort]
    omega
  | roused hphase hrouse =>
    refine effort_lt_of_phase hpass hphase rfl rfl rfl rfl
      (fun id => visitEffort_le rfl (.inr rfl)) (Pool.effort_rouse hrouse) ?_
    simp only [Phase.effort]
    omega
  | deleted hphase hdelete | undeleted hphase hdelete =>
    obtain ⟨store, rfl⟩ := exists_store_of_onStore hdelete
    have hvisit := fun id => @visitEffort_le _ g { g with store } rfl id (hget id)
    refine @effort_lt_of_phase _ _ _ _ _ _ 0 hpass hphase rfl rfl rfl rfl hvisit (Nat.le_refl _) ?_
    simp only [Phase.effort]
    omega
  | abandoned hphase hmailbox hnobody | expired hphase | panicked | retired hphase =>
    simp [Act.serves] at hserves

/-- A pass that breaks down has no more `effort` than before. -/
theorem effort_panicked (hpass : g.pass = some p) (result : PassResult) :
    (g.passAt p (.finished result)).effort ≤ g.effort := by
  rw [effort, effort, passEffort_eq hpass]
  show g.scanEffort p.scan + 0 + g.pool.effort Task.effort + g.strays.length ≤ _
  omega

/-- **Every act** that `serves` leaves less `effort`, and no other leaves more. -/
theorem effort_step (hundisturbed : Undisturbed start g p) (hwithin : Act.within a = true)
    (hstep : g.step a = some g') :
    g'.effort + (if Act.serves a then 1 else 0) ≤ g.effort := by
  cases a with
  | worker act => exact effort_worker hstep
  | pass act =>
    have hpass := hundisturbed.pass
    have hmove := passMove_of_step hpass hstep
    cases hserves : Act.serves (.pass act : Act W) with
    | true => exact effort_move hundisturbed.sound hpass hmove hserves
    | false =>
      -- What does not get a pass on is to give up an attempt, or to break down.
      cases hmove with
      | abandoned hphase hmailbox hnobody | expired hphase =>
        refine Nat.le_of_lt (effort_lt_of_place hpass hphase rfl rfl ⟨rfl, rfl, rfl, rfl⟩ ?_)
        simp only [Phase.effort]
        omega
      | panicked => exact effort_panicked hpass _
      | retired hphase => exact absurd hwithin Bool.false_ne_true
      | _ => exact absurd hserves (by simp [Act.serves])
  | path event =>
    obtain rfl := Option.some.inj hstep
    exact Nat.le_refl _
  | control move =>
    obtain ⟨control, rfl⟩ := control_cases hstep
    exact Nat.le_refl _
  | client act | closePool | clearPool | restart directory ending =>
    exact absurd hwithin Bool.false_ne_true

/-- **A pass comes to an end:** at most `g.effort` acts of a run get it on. -/
theorem Undisturbed.countP_serves_le (hundisturbed : Undisturbed start g p)
    (hwithin : g.RunsWith (fun _ => Act.within) acts) (hrun : g.run acts = some g') :
    acts.countP Act.serves + g'.effort ≤ g.effort := by
  induction acts generalizing g p with
  | nil =>
    obtain rfl := Option.some.inj hrun
    simp
  | cons a acts ih =>
    obtain ⟨g₁, hstep, hrest⟩ := Option.bind_eq_some_iff.1 hrun
    obtain ⟨ha, hwithin₁⟩ := hwithin g₁ hstep
    obtain ⟨p₁, hundisturbed₁⟩ := hundisturbed.step ha hstep
    have hless := effort_step hundisturbed ha hstep
    have hmore := ih hundisturbed₁ hwithin₁ hrest
    rw [List.countP_cons]
    omega

end Journal

end BatchJournal
