import BatchJournal.Proofs.Journal.WrittenOnce
import BatchJournal.Proofs.Pool.Jobs

namespace BatchJournal

/-!
# Where deliveries come from

Whatever the write path is asked for was handed to the pool by a pass, in an attempt on an entry it
had in hand; and what a pass hands out is a mutation that the payload of the entry decodes to, with
the time of the entry.

* `Journal.asked?`, `Journal.path_of_step` — what an act asks of the write path, and all that
  happens to it besides.
* `Journal.handed?`, `Journal.brings_of_step` — how a delivery comes about.
* `Journal.Decoded` — the mutations in hand are those of the entry in hand.
-/

/-- The mutations that a pass has still to hand out in the given phase. -/
def Phase.carried : Phase → List Mutation
  | .pacing _ ms | .resting _ ms => ms
  | .sorting _ rest live _ => live ++ rest
  | .offering _ rest _ _ | .rousing _ rest _ _ => rest
  | .inserting _ m rest _ _ => m :: rest
  | .between | .fetched _ | .collecting _ _ _ | .deleting _ _ | .failed _ _ | .finished _ => []

namespace Journal

variable {W : WritePath} {start g g' : Journal W} {acts : List (Act W)} {a : Act W} {p p' : Pass}
  {d : Delivery} {e : Entry}

/-! ### The write path -/

/-- **What an act asks of the write path:** the delivery, and the choice on which the answer
    hangs. -/
def asked? (g : Journal W) : Act W → Option (Delivery × W.Choice)
  | .worker (.apply w choice) =>
    match g.task? w with
    | some (.waiting d) => some (d, choice)
    | _ => none
  | .worker (.stray i choice) => g.strays[i]?.map fun d => (d, choice)
  | _ => none

/-- The write path after an act: what `apply` makes of it, or an event of others. -/
def pathAfter (g : Journal W) (a : Act W) : W.State :=
  match g.asked? a, a with
  | some (d, choice), _ => (W.apply choice g.path d.mutation d.written).2
  | none, .path event => W.occur event g.path
  | none, _ => g.path

/-- **What happens to the write path** is `pathAfter`. -/
theorem path_of_step (h : g.step a = some g') : g'.path = g.pathAfter a := by
  cases a with
  | worker act =>
    have hstep : g.workerStep act = some g' := h
    cases act with
    | proceed w =>
      simp only [workerStep] at hstep
      split at hstep
      · simp at hstep
      · -- The end of a job does not ask the write path.
        obtain ⟨pool, rfl, -⟩ := endJob_cases hstep
        rfl
    | apply w choice =>
      simp only [workerStep] at hstep
      -- The delivery is asked for as `applied` says, whatever comes of it.
      split at hstep
      · rename_i d htask
        simp only [pathAfter, asked?, htask]
        split at hstep <;> rename_i happlied
        · rw [← Option.some.inj hstep, ← (Prod.mk.inj happlied).2]
        · obtain ⟨pool, rfl, -⟩ := endJob_cases hstep
          rw [← (Prod.mk.inj happlied).2]
      · simp at hstep
    | report w =>
      simp only [workerStep] at hstep
      split at hstep
      · rename_i d r htask
        obtain ⟨pool, rfl, -⟩ := endJob_cases hstep
        unfold delivered
        split <;> rfl
      · simp at hstep
    | stray i choice =>
      simp only [workerStep] at hstep
      split at hstep
      · rename_i d hstray
        rw [← Option.some.inj hstep]
        simp only [pathAfter, asked?, hstray, Option.map_some, applied]
      · simp at hstep
  -- A pass never asks the write path itself; its workers do.
  | pass act =>
    rcases pass_cases h with ⟨ticket, rfl, hbegin⟩ | ⟨p, -, hmove⟩
    · obtain ⟨-, number, throttle, rfl⟩ := begin_cases hbegin
      rfl
    · obtain ⟨store, pool, counters, control, attempts, mailbox, pass, rfl⟩ :=
        changes_of_passMove hmove
      rfl
  | client act =>
    obtain rfl := Option.some.inj h
    obtain ⟨store, seen, heq⟩ := g.changes_of_clientStep act
    rw [heq]
    rfl
  | path event =>
    obtain rfl := Option.some.inj h
    rfl
  | control move =>
    obtain ⟨control, rfl⟩ := control_cases h
    rfl
  | closePool =>
    obtain rfl := Option.some.inj h
    rfl
  | clearPool =>
    obtain ⟨-, rfl⟩ := clearPool_cases h
    rfl
  -- The write path outlasts the journal.
  | restart directory ending =>
    obtain ⟨store, rfl⟩ := opened_of_restart h
    rfl

/-! ### Deliveries -/

/-- **The deliveries under way:** those of the jobs in the pool, and `strays`. -/
def deliveries (g : Journal W) : List Delivery := g.pool.jobs.map Task.delivery ++ g.strays

/-- What an act hands to the pool at `insert`, and the entry it does so for. -/
def handed? (g : Journal W) : Act W → Option (Entry × Delivery)
  | .pass .insert =>
    match g.pass.map Pass.phase with
    | some (.inserting e m _ _ _) => some (e, ⟨g.attempts, m, e.written⟩)
    | _ => none
  | _ => none

/-- What a run hands to the pool, in order. -/
def handings (g : Journal W) (acts : List (Act W)) : List (Entry × Delivery) := g.along handed? acts

/-- The `task?` of a worker is a job of the pool. -/
theorem mem_jobs_of_task? {w : Nat} {t : Task} (h : g.task? w = some t) : t ∈ g.pool.jobs := by
  obtain ⟨worker, hworker, hrunning⟩ := exists_worker_of_task? h
  exact Pool.mem_jobs_of_running hworker hrunning

/-- What is `asked?` of the write path waits in a job or is a stray. -/
theorem waiting_of_asked? {choice : W.Choice} (h : g.asked? a = some (d, choice)) :
    .waiting d ∈ g.pool.jobs ∨ d ∈ g.strays := by
  unfold asked? at h
  split at h
  · split at h
    · rename_i htask
      obtain ⟨rfl, -⟩ := Prod.mk.inj (Option.some.inj h)
      exact .inl (mem_jobs_of_task? htask)
    · simp at h
  · obtain ⟨d', hstray, heq⟩ := Option.map_eq_some_iff.1 h
    obtain ⟨rfl, -⟩ := Prod.mk.inj heq
    exact .inr (List.mem_of_getElem? hstray)
  · simp at h

/-- So it is among the `deliveries`. -/
theorem mem_deliveries_of_asked? {choice : W.Choice} (h : g.asked? a = some (d, choice)) :
    d ∈ g.deliveries := by
  rcases waiting_of_asked? h with hjob | hstray
  · exact List.mem_append_left _ (List.mem_map_of_mem hjob)
  · exact List.mem_append_right _ hstray

/-- `endJob` brings in no job. -/
theorem jobs_of_endJob {w : Nat} (h : g.endJob w = some g') :
    ∃ pool, g' = { g with pool } ∧ ∀ t ∈ pool.jobs, t ∈ g.pool.jobs := by
  obtain ⟨⟨pool, wakes⟩, hwork, rfl⟩ := Option.map_eq_some_iff.1 h
  exact ⟨pool, rfl, fun t ht => Pool.mem_jobs_work hwork ht⟩

/-- **What an act may bring under way:** a job of the pool gets its answer, a delivery is `handed?`
    to the pool, or a worker is left alone with what it is inside of. -/
structure Brings (g : Journal W) (a : Act W) (g' : Journal W) : Prop where
  /-- A job was there before, has just got its answer, or is `handed?` to the pool just now. -/
  jobs : ∀ t ∈ g'.pool.jobs, t ∈ g.pool.jobs ∨ (∃ d r, t = .answered d r ∧ .waiting d ∈ g.pool.jobs)
    ∨ ∃ e d, t = .waiting d ∧ g.handed? a = some (e, d)
  /-- A stray was one before, or a worker was inside of it when its journal was closed. -/
  strays : ∀ d ∈ g'.strays, d ∈ g.strays ∨ .waiting d ∈ g.pool.jobs

/-- An act that adds neither to the jobs nor to `strays` brings nothing. -/
theorem Brings.of_mem (hjobs : ∀ t ∈ g'.pool.jobs, t ∈ g.pool.jobs)
    (hstrays : ∀ d ∈ g'.strays, d ∈ g.strays) : g.Brings a g' :=
  ⟨fun t ht => .inl (hjobs t ht), fun d hd => .inl (hstrays d hd)⟩

/-- Workers give jobs their answers, and end jobs and strays. -/
theorem brings_of_workerStep {act : WorkerAct W} (h : g.workerStep act = some g') :
    g.Brings (.worker act) g' := by
  cases act with
  | proceed w =>
    simp only [workerStep] at h
    split at h
    · simp at h
    · obtain ⟨pool, rfl, hjobs⟩ := jobs_of_endJob h
      exact .of_mem hjobs fun _ => id
  | apply w choice =>
    simp only [workerStep] at h
    split at h
    · rename_i d htask
      split at h <;> rename_i happlied
      · -- The job is still inside the worker, with the answer.
        rename_i r g₁
        rw [← Option.some.inj h, ← (Prod.mk.inj happlied).2]
        refine ⟨fun t ht => ?_, fun d' hd' => .inl hd'⟩
        rcases Pool.mem_jobs_place ht with hbefore | hrunning
        · exact .inl hbefore
        · exact .inr (.inl ⟨d, r, (Option.some.inj hrunning).symm, mem_jobs_of_task? htask⟩)
      · rw [← (Prod.mk.inj happlied).2] at h
        obtain ⟨pool, rfl, hjobs⟩ := jobs_of_endJob h
        exact .of_mem hjobs fun _ => id
    · simp at h
  | report w =>
    simp only [workerStep] at h
    split at h
    · rename_i d r htask
      obtain ⟨pool, rfl, hjobs⟩ := jobs_of_endJob h
      have hsame : (g.delivered d r).pool = g.pool ∧ (g.delivered d r).strays = g.strays := by
        unfold delivered
        split <;> exact ⟨rfl, rfl⟩
      rw [hsame.1] at hjobs
      exact .of_mem hjobs fun _ hd => hsame.2 ▸ hd
    · simp at h
  | stray i choice =>
    simp only [workerStep] at h
    split at h
    · rw [← Option.some.inj h]
      exact .of_mem (fun _ => id) fun _ hd => List.mem_of_mem_eraseIdx hd
    · simp at h

/-- Of a pass only `insert` brings in a job. -/
theorem brings_of_passMove {act : PassAct} (hpass : g.pass = some p) (h : g.PassMove p act g') :
    g.Brings (.pass act) g' := by
  cases h with
  | inserted hphase hpush =>
    -- The job that is put into the pool carries the delivery that is handed out.
    refine ⟨fun t ht => ?_, fun d hd => .inl hd⟩
    rcases Pool.mem_jobs_push hpush ht with hbefore | rfl
    · exact .inl hbefore
    · have hphase' := congrArg (Option.map Pass.phase) hpass
      rw [Option.map_some, hphase] at hphase'
      exact .inr (.inr ⟨_, _, rfl, by simp only [handed?, hphase']; rfl⟩)
  | roused hphase hrouse =>
    exact .of_mem (fun _ ht => Pool.mem_jobs_rouse hrouse ht) fun _ => id
  | deleted hphase hdelete | undeleted hphase hdelete =>
    obtain ⟨store, rfl⟩ := exists_store_of_onStore hdelete
    exact .of_mem (fun _ => id) fun _ => id
  | _ => exact .of_mem (fun _ => id) fun _ => id

/-- **Every act** is as `Brings` says. -/
theorem brings_of_step (h : g.step a = some g') : g.Brings a g' := by
  cases stepMove_of_step h with
  | worker hstep => exact brings_of_workerStep hstep
  | begun => exact .of_mem (fun _ => id) fun _ => id
  | passed hpass hmove => exact brings_of_passMove hpass hmove
  | @restarted directory ending =>
    refine ⟨fun t ht => by simp [opened] at ht, fun d hd => ?_⟩
    -- The workers go on after a shutdown, and end with the process otherwise.
    cases ending with
    | died | diedIn op effects kept => simp [opened, outlasting] at hd
    | closed =>
      rcases List.mem_append.1 hd with hd | hd
      · exact .inl hd
      · -- A worker that is inside a delivery has its job in the pool.
        obtain ⟨worker, hworker, hinside⟩ := List.mem_filterMap.1 hd
        split at hinside
        · rename_i d' hrunning
          obtain rfl := Option.some.inj hinside
          exact .inr (Pool.mem_jobs_iff.2 (.inr ⟨worker, hworker, hrunning⟩))
        · simp at hinside
  | aside _ hpool =>
    refine .of_mem (fun t ht => ?_) fun _ => id
    rcases hpool with rfl | rfl | ⟨-, rfl⟩
    · exact ht
    · exact ht
    · exact Pool.mem_jobs_clear ht

/-- **A delivery that is under way** was before, or is `handed?` to the pool just now. -/
theorem delivery_of_step (h : g.step a = some g') (hd : d ∈ g'.deliveries) :
    d ∈ g.deliveries ∨ ∃ e, g.handed? a = some (e, d) := by
  obtain ⟨hjobs, hstrays⟩ := brings_of_step h
  have hjob : ∀ t ∈ g.pool.jobs, t.delivery ∈ g.deliveries := fun t ht =>
    List.mem_append_left _ (List.mem_map_of_mem ht)
  rcases List.mem_append.1 hd with hd | hd
  · obtain ⟨t, ht, rfl⟩ := List.mem_map.1 hd
    rcases hjobs t ht with hbefore | ⟨d, r, rfl, hwaiting⟩ | ⟨e, d, rfl, hhanded⟩
    · exact .inl (hjob t hbefore)
    · exact .inl (hjob (.waiting d) hwaiting)
    · exact .inr ⟨e, hhanded⟩
  · rcases hstrays d hd with hbefore | hwaiting
    · exact .inl (List.mem_append_right _ hbefore)
    · exact .inl (hjob (.waiting d) hwaiting)

/-- **Whatever is under way was handed to the pool,** unless it was left from an earlier journal. -/
theorem handed_of_mem_deliveries (hrun : start.run acts = some g) (hd : d ∈ g.deliveries) :
    d ∈ start.deliveries ∨ ∃ e, (e, d) ∈ start.handings acts := by
  refine run_induction (I := fun acts g => d ∈ g.deliveries → _ ∨ ∃ e, (e, d) ∈ start.handings acts)
    .inl (fun {earlier g₁ a g₂} _ hearlier hstep ih hd => ?_) hrun hd
  simp only [handings, along_concat hearlier, List.mem_append]
  rcases delivery_of_step hstep hd with hbefore | ⟨e, hhanded⟩
  · exact (ih hbefore).imp_right fun ⟨e, he⟩ => ⟨e, .inl he⟩
  · exact .inr ⟨e, .inr (by simp [hhanded])⟩

/-! ### The mutations in hand -/

/-- Nobody changes `settings` or `registry`, which a journal is opened with. -/
theorem configuration_of_step (h : g.step a = some g') :
    g'.settings = g.settings ∧ g'.registry = g.registry := by
  -- Only acts of workers and passes, and a restart, concern the pass at all.
  cases stepMove_of_step h with
  | worker hstep =>
    have hbeside := beside_of_workerStep hstep
    exact ⟨hbeside.settings, hbeside.registry⟩
  | passed _ hmove => exact configuration_of_passMove hmove
  | begun | restarted | aside => exact ⟨rfl, rfl⟩

theorem registry_of_step (h : g.step a = some g') : g'.registry = g.registry :=
  (configuration_of_step h).2

/-- No run changes `settings` or `registry`. -/
theorem configuration_of_run (hrun : start.run acts = some g) :
    g.settings = start.settings ∧ g.registry = start.registry :=
  run_keeps (I := fun g => g.settings = start.settings ∧ g.registry = start.registry)
    (fun h hstep => ⟨(configuration_of_step hstep).1.trans h.1,
      (configuration_of_step hstep).2.trans h.2⟩)
    ⟨rfl, rfl⟩ hrun

theorem registry_of_run (hrun : start.run acts = some g) : g.registry = start.registry :=
  (configuration_of_run hrun).2

/-- The mutation `m` is one of those that the payload of `e` decodes to. -/
def Belongs (g : Journal W) (m : Mutation) (e : Entry) : Prop :=
  ∃ ms, g.registry.decode e.version e.payload = .ok ms ∧ m ∈ ms

/-- **The mutations in hand,** `carried` by the phase, belong to the entry in hand. -/
def Decoded (g : Journal W) : Prop :=
  ∀ p, g.pass = some p → ∀ e, p.phase.held? = some e → ∀ m ∈ p.phase.carried, g.Belongs m e

theorem carried_awaiting (e : Entry) (pending dropped : Nat) :
    (awaiting e pending dropped).carried = [] := by
  unfold awaiting
  split <;> rfl

/-- **A `PassMove`** carries on what was `carried`, or takes in hand what an entry decodes to. -/
theorem carried_of_passMove {act : PassAct} (h : g.PassMove p act g') (hpass' : g'.pass = some p')
    (he : p'.phase.held? = some e) {m : Mutation} (hm : m ∈ p'.phase.carried) :
    p.phase.held? = some e ∧ m ∈ p.phase.carried ∨ g.Belongs m e := by
  -- What is still carried was carried in the phase before.
  have hcarried : ∀ {phase : Phase}, p.phase = phase → phase.held? = some e → m ∈ phase.carried →
      p.phase.held? = some e ∧ m ∈ p.phase.carried ∨ g.Belongs m e := by
    intro phase hphase he hm
    rw [hphase]
    exact .inl ⟨he, hm⟩
  cases h with
  | accepted hphase hage hdecode hplace =>
    -- Only here something is taken in hand: all that the payload decodes to.
    obtain rfl := Option.some.inj hpass'
    rcases hplace with rfl | rfl
    · obtain rfl := Option.some.inj he
      exact .inr ⟨_, hdecode, hm⟩
    · obtain rfl := Option.some.inj he
      exact .inr ⟨_, hdecode, by simpa [Phase.carried] using hm⟩
  | paced hphase hplace =>
    obtain rfl := Option.some.inj hpass'
    rcases hplace with rfl | rfl
    · exact hcarried hphase he hm
    · exact hcarried hphase he (by simpa [Phase.carried] using hm)
  | woken hphase =>
    obtain rfl := Option.some.inj hpass'
    exact hcarried hphase he (by simpa [Phase.carried] using hm)
  | dropped hphase htruncated hlate =>
    obtain rfl := Option.some.inj hpass'
    refine hcarried hphase he ?_
    simp only [Phase.carried, List.mem_append, List.mem_cons] at hm ⊢
    exact hm.imp_right .inr
  | kept hphase hkept =>
    obtain rfl := Option.some.inj hpass'
    refine hcarried hphase he ?_
    simpa [Phase.carried, or_assoc] using hm
  | attempted hphase =>
    obtain rfl := Option.some.inj hpass'
    exact hcarried hphase he (List.mem_append_left _ hm)
  | offered hphase hopen | roused hphase hrouse =>
    obtain rfl := Option.some.inj hpass'
    exact hcarried hphase he hm
  | inserted hphase hpush =>
    obtain rfl := Option.some.inj hpass'
    exact hcarried hphase he (List.mem_cons_of_mem _ hm)
  | offeredAll hphase | collected hphase hmailbox =>
    -- A pass that waits for answers has handed out everything.
    obtain rfl := Option.some.inj hpass'
    have hnone : m ∈ (awaiting _ _ _).carried := hm
    rw [carried_awaiting] at hnone
    simp at hnone
  | deleted hphase hdelete | undeleted hphase hdelete =>
    obtain ⟨store, rfl⟩ := exists_store_of_onStore hdelete
    obtain rfl := Option.some.inj hpass'
    simp [Phase.carried] at hm
  | retired hphase => simp at hpass'
  | _ =>
    obtain rfl := Option.some.inj hpass'
    simp [Phase.carried] at hm

/-- **Every act keeps `Decoded`.** -/
theorem Decoded.step (h : g.Decoded) (hstep : g.step a = some g') : g'.Decoded := by
  have hregistry := registry_of_step hstep
  intro p' hpass' e he m hm
  have hbelongs : g.Belongs m e → g'.Belongs m e := by
    intro hm
    rwa [Belongs, hregistry]
  -- A pass that stays carries what it carried, and the registry is the same.
  cases stepMove_of_step hstep with
  | worker hstep =>
    exact hbelongs (h p' ((beside_of_workerStep hstep).pass ▸ hpass') e he m hm)
  | begun =>
    obtain rfl := Option.some.inj hpass'
    simp [Phase.carried] at hm
  | @passed p _ _ hpass hmove =>
    -- What the pass carries it carried before, or has just decoded.
    rcases carried_of_passMove hmove hpass' he hm with ⟨he, hm⟩ | hm
    · exact hbelongs (h p hpass e he m hm)
    · exact hbelongs hm
  | restarted => simp [opened] at hpass'
  | aside => exact hbelongs (h p' hpass' e he m hm)

theorem decoded_of_run (hnew : start.pass = none) (hrun : start.run acts = some g) : g.Decoded :=
  run_keeps (I := Decoded) Decoded.step (fun p hp => by simp [hnew] at hp) hrun

/-- **What is `handed?` to the pool** is a mutation of the entry in hand, at its time. -/
theorem handed_spec (h : g.Decoded) (hhanded : g.handed? a = some (e, d)) :
    g.inHand? = some e ∧ d.written = e.written ∧ g.Belongs d.mutation e := by
  unfold handed? at hhanded
  split at hhanded
  · split at hhanded
    · rename_i e' m rest pending dropped hphase
      obtain ⟨rfl, rfl⟩ := Prod.mk.inj (Option.some.inj hhanded)
      obtain ⟨p, hpass, hphase⟩ := Option.map_eq_some_iff.1 hphase
      refine ⟨by simp [inHand?, hpass, hphase, Phase.held?], rfl, ?_⟩
      exact h p hpass e' (by rw [hphase]; rfl) m (by rw [hphase]; exact List.mem_cons_self)
    · simp at hhanded
  · simp at hhanded

end Journal

end BatchJournal
