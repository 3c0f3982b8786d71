import BatchJournal.Proofs.Pool.Staff
import BatchJournal.Proofs.Replay.Course

namespace BatchJournal

/-!
# A pass gets on

A pass that nobody disturbs is never stuck: as long as it is not over, it can make a move itself,
or it waits for an answer and a worker can do something for it, or nobody is left to answer and it
gives the attempt up.  On course that last case does not come up.

* `Journal.staffed_of_run` — the pool has the workers and the room that the settings give it.
* `Journal.AtWork` — while a pass waits for answers, no job waits without a worker awake.
* `Journal.Undisturbed.advances`, `Journal.OnCourse.advances` — the pass or a worker can act.
-/

namespace Journal

variable {W : WritePath} {start g g' : Journal W} {p p' : Pass} {a : Act W} {acts : List (Act W)}

/-! ### The staff along a run -/

/-- **Staffed:** `g` has the given `settings`, and the pool has the workers and the room that they
    give it. -/
structure Staffed (settings : Settings) (g : Journal W) : Prop where
  /-- The settings stay the same. -/
  same : g.settings = settings
  /-- The pool stays staffed. -/
  pool : g.pool.Staffed settings.workers.toNat settings.queueDepth.toNat

theorem staffed_opened (settings : Settings) (registry : Registry) (store : Store) (path : W.State)
    (strays : List Delivery) : (opened settings registry store path strays).Staffed settings :=
  ⟨rfl, Pool.staffed_start _ _⟩

/-- **Every act** keeps `Staffed`. -/
theorem Staffed.step {settings : Settings} (h : g.Staffed settings) (hstep : g.step a = some g') :
    g'.Staffed settings := by
  cases stepMove_of_step hstep with
  | worker hstep =>
    obtain ⟨path, pool, mailbox, strays, rfl, hpool⟩ := changes_of_workerStep hstep
    refine ⟨h.same, ?_⟩
    -- A worker's step is one turn of the pool or the report that ends a job.
    rcases hpool with ⟨rfl, -⟩ | ⟨-, ⟨w, wakes, hwork⟩ | ⟨w, d, r, -, rfl⟩⟩
    · exact h.pool
    · exact h.pool.work hwork
    · exact h.pool.set rfl rfl rfl (by simp [Worker.hasExited])
  | begun => exact ⟨h.same, h.pool⟩
  | passed _ hmove =>
    refine ⟨(configuration_of_passMove hmove).1.trans h.same, ?_⟩
    rcases pool_of_passMove hmove with ⟨hsame, -⟩ | ⟨-, ⟨m, written, hpush⟩ | ⟨worker, hrouse⟩⟩
    · exact hsame ▸ h.pool
    · exact h.pool.push hpush
    · exact h.pool.rouse hrouse
  -- A restart opens a new pool from the same settings.
  | restarted =>
    rw [h.same]
    exact staffed_opened _ _ _ _ _
  | aside _ hpool =>
    refine ⟨h.same, ?_⟩
    rcases hpool with rfl | rfl | ⟨-, rfl⟩
    · exact h.pool
    · exact h.pool.close
    · exact h.pool.clear

/-- **Every run** keeps `Staffed`. -/
theorem staffed_of_run {settings : Settings} (h : start.Staffed settings)
    (hrun : start.run acts = some g) : g.Staffed settings :=
  run_keeps (fun h hstep => h.step hstep) h hrun

/-! ### Somebody is at work -/

/-- **Somebody is at work** on what the pass has put into the pool: nothing is `pending`, or the
    pool is `Served`. -/
def AtWork (g : Journal W) : Phase → Prop
  | .offering _ _ pending _ | .inserting _ _ _ pending _ | .collecting _ pending _ =>
    pending = 0 ∨ g.pool.Served
  | _ => True

/-- At `awaiting` somebody is at work for the `pending` mutations, as before. -/
theorem atWork_awaiting {e : Entry} {pending dropped : Nat} (h : pending = 0 ∨ g.pool.Served) :
    g.AtWork (awaiting e pending dropped) := by
  unfold awaiting
  split
  · trivial
  · exact h

/-- Workers keep `AtWork`. -/
theorem AtWork.worker {act : WorkerAct W} {phase : Phase} (h : g.AtWork phase)
    (hstep : g.workerStep act = some g') : g'.AtWork phase := by
  have hserved : g.pool.Served → g'.pool.Served := by
    obtain ⟨path, pool, mailbox, strays, rfl, hpool⟩ := changes_of_workerStep hstep
    intro hserved
    rcases hpool with ⟨rfl, -⟩ | ⟨-, ⟨w, wakes, hwork⟩ | ⟨w, d, r, htask, rfl⟩⟩
    · exact hserved
    · exact Pool.served_work hwork
    · obtain ⟨worker, hworker, -⟩ := exists_worker_of_task? htask
      exact Pool.served_of_set (List.getElem?_eq_some_iff.1 hworker).1 rfl rfl
  cases phase with
  | offering e rest pending dropped | inserting e m rest pending dropped
  | collecting e pending dropped => exact Or.imp_right hserved h
  | between | fetched e | pacing e ms | resting e ms | sorting e rest live dropped
  | rousing e rest pending dropped | deleting e dropped | failed e reason
  | finished result => trivial

/-- **The pass leaves somebody at work:** for each mutation that it puts in it wakes a worker. -/
theorem AtWork.move {act : PassAct} {workers capacity : Nat} (h : g.AtWork p.phase)
    (hstaffed : g.pool.Staffed workers capacity) (hpos : 0 < workers)
    (hopen : g.pool.closed = false) (hmove : g.PassMove p act g') (hpass : g'.pass = some p') :
    g'.AtWork p'.phase := by
  cases hmove with
  | accepted hphase hage hdecode hplace =>
    obtain rfl := Option.some.inj hpass
    rcases hplace with rfl | rfl <;> trivial
  | paced hphase hplace =>
    obtain rfl := Option.some.inj hpass
    rcases hplace with rfl | rfl <;> trivial
  | attempted hphase =>
    obtain rfl := Option.some.inj hpass
    -- Nothing has been offered yet, so nothing is awaited.
    exact .inl rfl
  | offeredAll hphase =>
    obtain rfl := Option.some.inj hpass
    rw [hphase] at h
    exact atWork_awaiting h
  | offered hphase hopen =>
    obtain rfl := Option.some.inj hpass
    rw [hphase] at h
    exact h
  | roused hphase hrouse =>
    obtain rfl := Option.some.inj hpass
    -- An open pool that was just roused has a worker awake to take the job.
    exact .inr (hstaffed.served_rouse hpos hopen hrouse)
  | collected hphase hmailbox =>
    obtain rfl := Option.some.inj hpass
    rw [hphase] at h
    -- The report collected is one fewer in the mailbox and one fewer to wait for.
    exact atWork_awaiting (h.imp_left fun hnone => by omega)
  | retired hphase => simp at hpass
  | _ =>
    obtain rfl := Option.some.inj hpass
    trivial

/-- `AtWork` is kept by whatever comes next. -/
theorem AtWork.step {settings : Settings} (h : g.AtWork p.phase)
    (hundisturbed : Undisturbed start g p) (hstaffed : g.Staffed settings)
    (hpos : 0 < settings.workers.toNat) (hwithin : Act.within a = true)
    (hstep : g.step a = some g') (hpass : g'.pass = some p') : g'.AtWork p'.phase := by
  rcases within_cases hwithin hstep with
    ⟨act, rfl, hworker⟩ | ⟨act, p₁, rfl, -, hp, hmove⟩ | ⟨path, control, rfl⟩
  · have hsame := (beside_of_workerStep hworker).pass.trans hundisturbed.pass
    obtain rfl := Option.some.inj (hpass.symm.trans hsame)
    exact h.worker hworker
  · obtain rfl := Option.some.inj (hp.symm.trans hundisturbed.pass)
    exact h.move hstaffed.pool hpos hundisturbed.room.1 hmove hpass
  · obtain rfl := Option.some.inj (hpass.symm.trans hundisturbed.pass)
    exact h

/-- At `collecting` a pass still expects an answer. -/
def Expectant : Phase → Prop
  | .collecting _ pending _ => 0 < pending
  | _ => True

theorem expectant_awaiting {e : Entry} {pending dropped : Nat} :
    Expectant (awaiting e pending dropped) := by
  unfold awaiting
  split
  · trivial
  · exact Nat.pos_of_ne_zero (by assumption)

/-- **The pass collects** only as long as it expects an answer: `Expectant` holds after every
    `PassMove`. -/
theorem expectant_of_move {act : PassAct} (hmove : g.PassMove p act g')
    (hpass : g'.pass = some p') : Expectant p'.phase := by
  cases hmove with
  | offeredAll hphase | collected hphase hmailbox =>
    obtain rfl := Option.some.inj hpass
    exact expectant_awaiting
  | accepted hphase hage hdecode hplace | paced hphase hplace =>
    obtain rfl := Option.some.inj hpass
    rcases hplace with rfl | rfl <;> trivial
  | retired hphase => simp at hpass
  | _ =>
    obtain rfl := Option.some.inj hpass
    trivial

/-- `Expectant` is kept by whatever comes next. -/
theorem Expectant.step (h : Expectant p.phase) (hundisturbed : Undisturbed start g p)
    (hwithin : Act.within a = true) (hstep : g.step a = some g') (hpass : g'.pass = some p') :
    Expectant p'.phase := by
  rcases hundisturbed.cases hwithin hstep hpass with ⟨rfl, -⟩ | ⟨act, -, -, hmove⟩
  · exact h
  · exact expectant_of_move hmove hpass

/-! ### The pass gets on -/

/-- The act gets a pass on: it is one of a worker, or of the pass as long as it does not give up. -/
def Act.serves : Act W → Bool
  | .worker _ => true
  | .pass (.begin _) | .pass .abandon | .pass (.expire _) | .pass (.panic _) | .pass .retire => false
  | .pass _ => true
  | _ => false

/-- A worker that `isAwake` can do something, whatever `choice` the write path makes. -/
theorem exists_workerStep (choice : W.Choice) {w : Nat} {worker : Worker Task}
    (hworker : g.pool.workers[w]? = some worker) (hawake : worker.isAwake = true) :
    ∃ act g', g.workerStep act = some g' := by
  obtain ⟨next, hwork⟩ := Pool.exists_work hworker hawake
  -- Whatever the act did to the table, the turn of the worker is that of the pool.
  have hend : ∀ {g₁ : Journal W}, g₁.pool = g.pool → ∃ g', g₁.endJob w = some g' := by
    intro g₁ hpool
    rw [endJob, hpool, hwork]
    exact ⟨_, rfl⟩
  cases htask : g.task? w with
  | none =>
    obtain ⟨g', hstep⟩ := hend (rfl : g.pool = g.pool)
    exact ⟨.proceed w, g', by rw [workerStep, htask]; exact hstep⟩
  | some t =>
    cases t with
    | waiting d =>
      refine ⟨.apply w choice, ?_⟩
      simp only [workerStep, htask]
      split
      · exact ⟨_, rfl⟩
      · rename_i g₁ happlied
        rw [← (Prod.mk.inj happlied).2]
        exact hend rfl
    | answered d r =>
      refine ⟨.report w, ?_⟩
      simp only [workerStep, htask]
      exact hend (by unfold delivered; split <;> rfl)

/-- An attempt that is `attended` in a pool that is `Served` has a worker awake. -/
theorem exists_awake_of_attended (hattended : g.attended = true) (hserved : g.pool.Served) :
    ∃ worker ∈ g.pool.workers, worker.isAwake = true := by
  rcases hserved with hqueue | hawake
  · simp only [attended, hqueue, List.any_nil, Bool.false_or, List.any_eq_true] at hattended
    obtain ⟨worker, hworker, htask⟩ := hattended
    refine ⟨worker, hworker, ?_⟩
    cases worker <;> first | rfl | simp [Worker.running?] at htask
  · exact hawake

/-- **A pass that nobody disturbs gets on:** it is `finished`, or an act that `serves` is possible;
    at worst it gives up an attempt that nobody is left to answer. -/
theorem Undisturbed.advances (h : Undisturbed start g p) (hwork : g.AtWork p.phase)
    (hexpectant : Expectant p.phase) (choice : W.Choice) :
    (∃ result, p.phase = .finished result)
      ∨ (∃ a g', Act.serves a = true ∧ g.step a = some g')
      ∨ ∃ e pending dropped, p.phase = .collecting e pending dropped ∧ g.mailbox = []
          ∧ g.attended = false := by
  have hmove : ∀ {act : PassAct}, Act.serves (.pass act : Act W) = true →
      (∃ g', g.passStep p act = some g') →
      ∃ (a : Act W) (g' : Journal W), Act.serves a = true ∧ g.step a = some g' := by
    intro act hserves hstep
    obtain ⟨g', hstep⟩ := hstep
    refine ⟨.pass act, g', hserves, ?_⟩
    cases act with
    | begin ticket => simp [Act.serves] at hserves
    | _ => exact Option.bind_eq_some_iff.2 ⟨p, h.pass, hstep⟩
  cases hphase : p.phase with
  | finished result => exact .inl ⟨result, rfl⟩
  | between =>
    refine .inr (.inl (@hmove .fetch rfl ?_))
    simp only [passStep, hphase]
    split <;> exact ⟨_, rfl⟩
  | fetched e =>
    refine .inr (.inl (@hmove (.consider ⟨0⟩) rfl ?_))
    simp only [passStep, hphase]
    exact ⟨_, rfl⟩
  | pacing e ms =>
    refine .inr (.inl (@hmove (.pace 0) rfl ?_))
    simp only [passStep, hphase]
    exact ⟨_, rfl⟩
  | resting e ms =>
    refine .inr (.inl (@hmove .wake rfl ?_))
    simp only [passStep, hphase]
    exact ⟨_, rfl⟩
  | sorting e rest live dropped =>
    refine .inr (.inl (@hmove .sort rfl ?_))
    simp only [passStep, hphase]
    exact ⟨_, rfl⟩
  | offering e rest pending dropped =>
    refine .inr (.inl (@hmove .offer rfl ?_))
    simp only [passStep, hphase]
    exact ⟨_, rfl⟩
  | inserting e m rest pending dropped =>
    refine .inr (.inl (@hmove .insert rfl ?_))
    simp only [passStep, hphase]
    exact ⟨_, rfl⟩
  | rousing e rest pending dropped =>
    obtain ⟨worker, pool, hrouse⟩ := g.pool.exists_rouse
    refine .inr (.inl (@hmove (.rouse worker) rfl ?_))
    simp only [passStep, hphase, hrouse]
    exact ⟨_, rfl⟩
  | deleting e dropped =>
    refine .inr (.inl (@hmove (.delete none) rfl ?_))
    simp only [passStep, hphase]
    exact ⟨_, rfl⟩
  | failed e reason =>
    refine .inr (.inl (@hmove .countFailure rfl ?_))
    simp only [passStep, hphase]
    exact ⟨_, rfl⟩
  | collecting e pending dropped =>
    rw [hphase] at hexpectant hwork
    cases hmailbox : g.mailbox with
    | cons r mailbox =>
      refine .inr (.inl (@hmove .collect rfl ?_))
      simp only [passStep, hphase, collect, hmailbox]
      cases r <;> exact ⟨_, rfl⟩
    | nil =>
      cases hattended : g.attended with
      | false => exact .inr (.inr ⟨e, pending, dropped, rfl, rfl, rfl⟩)
      | true =>
        -- A task of the attempt waits or is inside a worker, so some worker is awake for it.
        have hserved : g.pool.Served := hwork.resolve_left (Nat.ne_of_gt hexpectant)
        obtain ⟨worker, hworker, hawake⟩ := exists_awake_of_attended hattended hserved
        obtain ⟨w, hw⟩ := List.getElem?_of_mem hworker
        obtain ⟨act, g', hstep⟩ := exists_workerStep choice hw hawake
        exact .inr (.inl ⟨.worker act, g', rfl, hstep⟩)

theorem OnCourse.expectant (h : OnCourse start g p) : Expectant p.phase := by
  have hsucceeding := h.succeeding
  cases hphase : p.phase with
  | collecting e pending dropped =>
    rw [hphase] at hsucceeding
    exact hsucceeding.2
  | _ => trivial

/-- **A pass `OnCourse` gets on:** it is `finished`, or an act that `serves` is possible. -/
theorem OnCourse.advances (h : OnCourse start g p) (hwork : g.AtWork p.phase)
    (choice : W.Choice) :
    (∃ result, p.phase = .finished result) ∨ ∃ a g', Act.serves a = true ∧ g.step a = some g' := by
  rcases h.undisturbed.advances hwork h.expectant choice with
    hfinished | hadvances | ⟨e, pending, dropped, hphase, hmailbox, hnobody⟩
  · exact .inl hfinished
  · exact .inr hadvances
  · exact (h.no_abandon hphase hmailbox hnobody).elim

end Journal

end BatchJournal
