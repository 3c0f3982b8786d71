import BatchJournal.Journal.Step
import BatchJournal.Proofs.Pool.Tally
import Mathlib.Data.List.Induction

namespace BatchJournal

/-!
# What one act does

The acts of a journal are many, and what most of them do to a replay attempt is little.  This module
says once what each kind of act can do to the tasks in the pool, to the mailbox and to the pass, so
that an invariant of attempts is checked kind by kind.

* `Journal.workerStep_cases` — a worker stands aside, asks the write path, or reports.
* `Journal.changes_of_workerStep` — all that a worker may change.
* `Journal.aside_of_step` — nobody else than workers and the pass touches an attempt, but that the
  pool may be cleared and the process may die.
* `Journal.run_keeps`, `Journal.run_induction` — runs, from their beginning and from their end.
* `Journal.along` — what is seen before the acts of a run.
-/

deriving instance DecidableEq for Delivery

namespace Task

/-- The task is to ask the write path for the delivery `d`. -/
def waitsFor (d : Delivery) : Task → Bool
  | .waiting d' => d' = d
  | .answered _ _ => false

/-- The task belongs to attempt `n`. -/
def belongs (n : Nat) (t : Task) : Bool := t.delivery.attempt = n

end Task

namespace Journal

variable {W : WritePath} {g g' : Journal W}

/-! ### Acts that stand aside -/

/-- **Standing aside:** an act that leaves the pass and its attempt as they are, but that tasks of
    the pool may be dropped. -/
structure Aside (g g' : Journal W) : Prop where
  /-- The pass is where it was. -/
  pass : g'.pass = g.pass
  /-- No attempt began. -/
  attempts : g'.attempts = g.attempts
  /-- Nobody told the pass anything. -/
  mailbox : g'.mailbox = g.mailbox
  /-- The settings are the same. -/
  settings : g'.settings = g.settings
  /-- The formats are the same. -/
  registry : g'.registry = g.registry
  /-- No task came in or changed: every `tally` is at most what it was. -/
  tally_le : ∀ q, g'.pool.tally q ≤ g.pool.tally q

/-- `onStore` changes nothing but `store`. -/
theorem exists_store_of_onStore {failure : Option StoreError} {op : StoreOp}
    {result : Except StoreError Unit} (h : g.onStore failure op = (result, g')) :
    ∃ store, g' = { g with store } := by
  obtain ⟨-, rfl⟩ := Prod.mk.inj h
  cases failure <;> exact ⟨_, rfl⟩

/-- **What a client may change** is `store` and `counters.seen`. -/
theorem changes_of_clientStep (g : Journal W) (act : ClientAct) :
    ∃ store seen,
      g.clientStep act = { g with store, counters := { g.counters with seen } } := by
  -- Whatever a client asks of the store, only the store changes, and `seen` for a batch that was
  -- stored.
  have hstore : ∀ {failure op result g₁}, g.onStore failure op = (result, g₁) →
      ∃ store seen, g₁ = { g with store, counters := { g.counters with seen } } := by
    intro failure op result g₁ h
    obtain ⟨store, rfl⟩ := exists_store_of_onStore h
    exact ⟨store, g.counters.seen, rfl⟩
  cases act with
  | submit id ms written failure =>
    simp only [clientStep, submit]
    split
    · exact ⟨g.store, g.counters.seen, rfl⟩
    · split
      · exact ⟨g.store, g.counters.seen, rfl⟩
      · simp only [put]
        split
        · rename_i hput
          exact hstore hput
        · rename_i hput
          obtain ⟨store, rfl⟩ := exists_store_of_onStore hput
          exact ⟨store, g.counters.seen + 1, rfl⟩
  | remove id failure =>
    simp only [clientStep, remove]
    split <;> (rename_i hdelete; exact hstore hdelete)
  | flush failure =>
    simp only [clientStep, flush]
    split <;> (rename_i hflush; exact hstore hflush)
  | put e failure | compact failure => exact hstore (Prod.eta _).symm

/-! ### Workers -/

/-- **What a worker does:** it stands `Aside`, it asks the write path for a delivery, which answers
    or breaks down, or it reports an answer. -/
inductive WorkerMove (g : Journal W) : WorkerAct W → Journal W → Prop where
  /-- No delivery gets on. -/
  | aside {act g'} (haside : g.Aside g') (htally : ∀ q, g'.pool.tally q = g.pool.tally q)
      (hidle : ∀ w choice, act ≠ .apply w choice) : WorkerMove g act g'
  /-- The write path answers. -/
  | answer {w choice g'} (d : Delivery) (r : Except WriteError Unit)
      (htask : g.task? w = some (.waiting d))
      (hanswer : (g.applied choice d).1 = .answered r)
      (hrest : g'.pass = g.pass ∧ g'.attempts = g.attempts ∧ g'.mailbox = g.mailbox
        ∧ g'.registry = g.registry)
      (htally : ∀ q, g'.pool.tally q + (if q (.waiting d) then 1 else 0)
        = g.pool.tally q + if q (.answered d r) then 1 else 0) :
      WorkerMove g (.apply w choice) g'
  /-- The write path breaks down. -/
  | breakDown {w choice g'} (d : Delivery)
      (htask : g.task? w = some (.waiting d))
      (hanswer : (g.applied choice d).1 = .brokeDown)
      (haside : g.Aside g')
      (htally : ∀ q, g'.pool.tally q + (if q (.waiting d) then 1 else 0) = g.pool.tally q) :
      WorkerMove g (.apply w choice) g'
  /-- An answer is reported; it is heard if it belongs to the latest attempt. -/
  | report {w g'} (d : Delivery) (r : Except WriteError Unit)
      (hrest : g'.pass = g.pass ∧ g'.attempts = g.attempts ∧ g'.registry = g.registry)
      (hmailbox : g'.mailbox = if d.attempt = g.attempts then g.mailbox ++ [r] else g.mailbox)
      (htally : ∀ q, g'.pool.tally q + (if q (.answered d r) then 1 else 0) = g.pool.tally q) :
      WorkerMove g (.report w) g'

theorem exists_worker_of_task? {w : Nat} {t : Task} (h : g.task? w = some t) :
    ∃ worker, g.pool.workers[w]? = some worker ∧ worker.running? = some t :=
  Option.bind_eq_some_iff.1 h

/-- `endJob` takes the `task?` of the worker out of every `tally`. -/
theorem endJob_cases {w : Nat} (h : g.endJob w = some g') :
    ∃ pool, g' = { g with pool }
      ∧ ∀ q, pool.tally q + (match g.task? w with | some t => if q t then 1 else 0 | none => 0)
        = g.pool.tally q := by
  obtain ⟨⟨pool, wakes⟩, hwork, rfl⟩ := Option.map_eq_some_iff.1 h
  refine ⟨pool, rfl, fun q => ?_⟩
  obtain ⟨worker, hworker, htally⟩ := @Pool.tally_work _ _ _ q _ _ hwork
  have htask : g.task? w = worker.running? := by simp [task?, hworker]
  rw [htask, ← htally]
  cases hrunning : worker.running? with
  | none => rw [Worker.load_of_running?_none hrunning]
  | some t => rw [Worker.load_of_running? hrunning]

/-- **Every step of a worker** is a `WorkerMove`. -/
theorem workerStep_cases {act : WorkerAct W} (h : g.workerStep act = some g') :
    g.WorkerMove act g' := by
  cases act with
  | proceed w =>
    simp only [workerStep] at h
    split at h
    · simp at h
    · rename_i hnone
      obtain ⟨pool, rfl, htally⟩ := endJob_cases h
      simp only [hnone, Nat.add_zero] at htally
      -- A step outside of any job takes no job from the pool.
      exact .aside ⟨rfl, rfl, rfl, rfl, rfl, fun q => Nat.le_of_eq (htally q)⟩ htally (by simp)
  | apply w choice =>
    simp only [workerStep] at h
    split at h
    · rename_i d htask
      cases happlied : g.applied choice d with
      -- The answer is recorded before it is split, so that the path is all that `applied` changes.
      | mk outcome g₁ =>
        have hg₁ : g₁ = { g with path := g₁.path } := by
          rw [applied] at happlied
          rw [← (Prod.mk.inj happlied).2]
        cases outcome with
        | answered r =>
          simp only [happlied, Option.some.injEq] at h
          subst h
          rw [hg₁]
          -- The worker keeps its job, which now carries the answer.
          refine .answer d r htask (by rw [happlied]) ⟨rfl, rfl, rfl, rfl⟩ fun q => ?_
          obtain ⟨worker, hworker, hrunning⟩ := exists_worker_of_task? htask
          have hplaced := @Pool.tally_place _ g.pool q w worker hworker (.running (.answered d r))
          have hload : (Worker.running (Task.answered d r)).load q
              = if q (.answered d r) then 1 else 0 := Worker.load_of_running? rfl q
          rw [Worker.load_of_running? hrunning, hload] at hplaced
          exact hplaced
        | brokeDown =>
          simp only [happlied] at h
          rw [hg₁] at h
          obtain ⟨pool, rfl, htally⟩ := endJob_cases h
          have hsame : ({ g with path := g₁.path } : Journal W).task? w = some (.waiting d) := htask
          simp only [hsame] at htally
          have hle : ∀ q, pool.tally q ≤ g.pool.tally q := fun q => Nat.le.intro (htally q)
          exact .breakDown d htask (by rw [happlied]) ⟨rfl, rfl, rfl, rfl, rfl, hle⟩ htally
    · simp at h
  | report w =>
    simp only [workerStep] at h
    split at h
    · rename_i d r htask
      obtain ⟨pool, rfl, htally⟩ := endJob_cases h
      -- Whether the pass hears the answer or not, the pool is the same.
      have hdelivered : (g.delivered d r).task? w = some (.answered d r)
          ∧ (g.delivered d r).pool = g.pool := by
        unfold delivered
        split <;> exact ⟨htask, rfl⟩
      simp only [hdelivered.1, hdelivered.2] at htally
      refine .report d r ?_ ?_ htally
      · unfold delivered
        split <;> exact ⟨rfl, rfl, rfl⟩
      · unfold delivered
        split <;> rfl
    · simp at h
  | stray i choice =>
    simp only [workerStep] at h
    split at h
    · rw [← Option.some.inj h]
      exact .aside ⟨rfl, rfl, rfl, rfl, rfl, fun _ => Nat.le_refl _⟩ (fun _ => rfl) (by simp)
    · simp at h

/-- **What a worker may change** is the write path, the pool, the mailbox and the strays: it ends a
    stray, it does its next step in the pool, or it has the answer to the job it is inside of. -/
theorem changes_of_workerStep {act : WorkerAct W} (h : g.workerStep act = some g') :
    ∃ path pool mailbox strays, g' = { g with path, pool, mailbox, strays }
      ∧ (pool = g.pool ∧ strays.length < g.strays.length
        ∨ strays = g.strays ∧ ((∃ w wakes, g.pool.work w = some (pool, wakes))
          ∨ ∃ w d r, g.task? w = some (.waiting d)
            ∧ pool = g.pool.place w (.running (.answered d r)))) := by
  -- As in `workerStep_cases`, but for what is left equal instead of what is done.
  cases act with
  | proceed w =>
    simp only [workerStep] at h
    split at h
    · simp at h
    · obtain ⟨⟨pool, wakes⟩, hwork, rfl⟩ := Option.map_eq_some_iff.1 h
      exact ⟨_, pool, _, _, rfl, .inr ⟨rfl, .inl ⟨w, wakes, hwork⟩⟩⟩
  | apply w choice =>
    simp only [workerStep] at h
    split at h
    · rename_i d htask
      split at h
      · rename_i r g₁ happlied
        rw [← Option.some.inj h, ← (Prod.mk.inj happlied).2]
        exact ⟨_, _, _, _, rfl, .inr ⟨rfl, .inr ⟨w, d, r, htask, rfl⟩⟩⟩
      · rename_i g₁ happlied
        obtain ⟨⟨pool, wakes⟩, hwork, rfl⟩ := Option.map_eq_some_iff.1 h
        rw [← (Prod.mk.inj happlied).2] at hwork ⊢
        exact ⟨_, pool, _, _, rfl, .inr ⟨rfl, .inl ⟨w, wakes, hwork⟩⟩⟩
    · simp at h
  | report w =>
    simp only [workerStep] at h
    split at h
    · rename_i d r htask
      obtain ⟨⟨pool, wakes⟩, hwork, rfl⟩ := Option.map_eq_some_iff.1 h
      unfold delivered at hwork ⊢
      split at hwork
      · rename_i hn
        rw [if_pos hn]
        exact ⟨_, pool, _, _, rfl, .inr ⟨rfl, .inl ⟨w, wakes, hwork⟩⟩⟩
      · rename_i hn
        rw [if_neg hn]
        exact ⟨_, pool, _, _, rfl, .inr ⟨rfl, .inl ⟨w, wakes, hwork⟩⟩⟩
    · simp at h
  | stray i choice =>
    simp only [workerStep] at h
    split at h
    · rename_i d hstray
      obtain rfl := Option.some.inj h
      obtain ⟨hlt, -⟩ := List.getElem?_eq_some_iff.1 hstray
      -- A stray that has ended is one less.
      refine ⟨_, _, _, _, rfl, .inl ⟨rfl, ?_⟩⟩
      rw [List.length_eraseIdx_of_lt hlt]
      omega
    · simp at h

/-- **What workers leave alone:** the pass, the settings, the formats and the store; and the pool
    `Keeps`. -/
structure Beside (g g' : Journal W) : Prop where
  /-- The pass is where it was. -/
  pass : g'.pass = g.pass
  /-- No attempt began. -/
  attempts : g'.attempts = g.attempts
  /-- The settings are the same. -/
  settings : g'.settings = g.settings
  /-- The formats are the same. -/
  registry : g'.registry = g.registry
  /-- The store is the same. -/
  store : g'.store = g.store
  /-- The pool takes nothing in. -/
  pool : g.pool.Keeps g'.pool

theorem beside_of_workerStep {act : WorkerAct W} (h : g.workerStep act = some g') :
    g.Beside g' := by
  obtain ⟨path, pool, mailbox, strays, rfl, hpool⟩ := changes_of_workerStep h
  refine ⟨rfl, rfl, rfl, rfl, rfl, ?_⟩
  rcases hpool with ⟨rfl, -⟩ | ⟨-, ⟨w, wakes, hwork⟩ | ⟨w, d, r, -, rfl⟩⟩
  · exact .refl _
  · exact Pool.keeps_work hwork
  · exact ⟨List.suffix_rfl, rfl, rfl⟩

/-! ### Everybody else -/

/-- The act is one of a worker or of the pass under way, or the end of the process. -/
def Act.concerns : Act W → Bool
  | .worker _ | .pass _ | .restart _ _ => true
  | _ => false

/-- A move of the control changes nothing but `control`. -/
theorem control_cases {move : Control.Move} (h : g.step (.control move) = some g') :
    ∃ control, g' = { g with control } := by
  cases move <;> simp only [step, reduceCtorEq, Option.map_eq_some_iff] at h <;>
    (obtain ⟨control, -, rfl⟩ := h; exact ⟨control, rfl⟩)

/-- `clearPool` needs a closed pool and drops what waits. -/
theorem clearPool_cases (h : g.step .clearPool = some g') :
    g.pool.closed = true ∧ g' = { g with pool := g.pool.clear } := by
  simp only [step] at h
  split at h
  · rename_i hclosed
    exact ⟨hclosed, (Option.some.inj h).symm⟩
  · simp at h

/-- **Everybody else** changes neither the pass nor what it hears, and of the pool only that it is
    closed, or cleared after that. -/
theorem aside_cases {a : Act W} (ha : Act.concerns a = false) (h : g.step a = some g') :
    ∃ store path pool control seen,
      g' = { g with store, path, pool, control, counters := { g.counters with seen } }
        ∧ (pool = g.pool ∨ pool = g.pool.close ∨ g.pool.closed = true ∧ pool = g.pool.clear) := by
  cases a with
  | worker _ | pass _ | restart _ _ => exact Bool.noConfusion ha
  | client act =>
    obtain rfl := Option.some.inj h
    obtain ⟨store, seen, heq⟩ := g.changes_of_clientStep act
    exact ⟨store, _, _, _, seen, heq, .inl rfl⟩
  | path event => exact ⟨_, _, _, _, _, (Option.some.inj h).symm, .inl rfl⟩
  | control move =>
    obtain ⟨control, rfl⟩ := control_cases h
    exact ⟨_, _, _, control, _, rfl, .inl rfl⟩
  | closePool => exact ⟨_, _, _, _, _, (Option.some.inj h).symm, .inr (.inl rfl)⟩
  | clearPool =>
    obtain ⟨hclosed, rfl⟩ := clearPool_cases h
    exact ⟨_, _, _, _, _, rfl, .inr (.inr ⟨hclosed, rfl⟩)⟩

/-- **Everybody else stands `Aside`.** -/
theorem aside_of_step {a : Act W} (ha : Act.concerns a = false) (h : g.step a = some g') :
    g.Aside g' := by
  obtain ⟨store, path, pool, control, seen, rfl, hpool⟩ := aside_cases ha h
  refine ⟨rfl, rfl, rfl, rfl, rfl, fun q => ?_⟩
  rcases hpool with rfl | rfl | ⟨-, rfl⟩
  · exact Nat.le_refl _
  · exact Nat.le_of_eq Pool.tally_close
  · exact Pool.tally_clear

/-- **A journal that was opened** by `overStore` has valid settings. -/
theorem overStore_eq_ok {settings : Settings} {registry : Registry} {store : Store}
    {path : W.State} {strays : List Delivery}
    (h : overStore settings registry store path strays = .ok g) :
    settings.validate = .ok () ∧ g = opened settings registry store path strays := by
  unfold overStore at h
  split at h
  · simp at h
  · rename_i hvalid
    exact ⟨hvalid, (Except.ok.inj h).symm⟩

/-- **A journal that is opened on a medium** is `opened` over the store that is found there. -/
theorem opened_of_onMedium {settings : Settings} {registry : Registry} {directory : String}
    {medium : Medium} {path : W.State} {strays : List Delivery}
    (h : (onMedium settings registry directory medium path strays).1 = .ok g) :
    ∃ store, g = opened settings registry store path strays := by
  simp only [onMedium] at h
  split at h
  · exact ⟨_, (overStore_eq_ok h).2⟩
  · split at h
    · simp at h
    · split at h
      · simp at h
      · exact ⟨_, (overStore_eq_ok h).2⟩

/-- **A restart opens the journal again,** with the settings, formats and write path that it had and
    with the deliveries `g.outlasting ending`. -/
theorem opened_of_restart {directory : String} {ending : Ending}
    (h : g.step (.restart directory ending) = some g') :
    ∃ store, g' = opened g.settings g.registry store g.path (g.outlasting ending) := by
  simp only [step] at h
  split at h
  · split at h
    · rename_i hrestart
      obtain rfl := Option.some.inj h
      exact opened_of_onMedium hrestart
    · simp at h
  · simp at h

/-! ### Runs -/

theorem run_append (acts acts' : List (Act W)) :
    g.run (acts ++ acts') = (g.run acts).bind (·.run acts') := by
  induction acts generalizing g with
  | nil => rfl
  | cons a acts ih =>
    simp only [List.cons_append, run]
    cases g.step a with
    | none => rfl
    | some g₁ => exact ih

/-- **What every act keeps,** runs keep: an invariant `I` of `step` is one of `run`. -/
theorem run_keeps {acts : List (Act W)} {I : Journal W → Prop}
    (hkeep : ∀ {g g' a}, I g → g.step a = some g' → I g') (h : I g)
    (hrun : g.run acts = some g') : I g' := by
  induction acts generalizing g with
  | nil =>
    obtain rfl := Option.some.inj hrun
    exact h
  | cons a acts ih =>
    obtain ⟨g₁, hstep, hrest⟩ := Option.bind_eq_some_iff.1 hrun
    exact ih (hkeep h hstep) hrest

theorem run_concat {acts : List (Act W)} {a : Act W} :
    g.run (acts ++ [a]) = some g' ↔ ∃ g₁, g.run acts = some g₁ ∧ g₁.step a = some g' := by
  rw [run_append, Option.bind_eq_some_iff]
  simp [run]

/-- **What holds of a run** holds of the empty run, and of a run with one more of the acts if it
    does without. -/
theorem run_induction {acts : List (Act W)} {I : List (Act W) → Journal W → Prop} (h : I [] g)
    (hkeep : ∀ {earlier g₁ a g₂}, a ∈ acts → g.run earlier = some g₁ → g₁.step a = some g₂ →
      I earlier g₁ → I (earlier ++ [a]) g₂)
    (hrun : g.run acts = some g') : I acts g' := by
  induction acts using List.reverseRecOn generalizing g' with
  | nil =>
    obtain rfl := Option.some.inj hrun
    exact h
  | append_singleton acts a ih =>
    obtain ⟨g₁, hrun₁, hstep⟩ := run_concat.1 hrun
    have hbefore := ih (fun hb => hkeep (List.mem_append_left _ hb)) hrun₁
    exact hkeep (List.mem_append_right _ (List.mem_singleton_self a)) hrun₁ hstep hbefore

/-- **What is seen along a run** by a `look` before each act. -/
def along {α : Type} (look : Journal W → Act W → Option α) (g : Journal W) : List (Act W) → List α
  | [] => []
  | a :: acts =>
    (look g a).toList ++ (match g.step a with | some g' => along look g' acts | none => [])

section along

variable {α : Type} {look : Journal W → Act W → Option α} {start : Journal W} {acts : List (Act W)}

theorem along_append {acts' : List (Act W)} (h : start.run acts = some g) :
    start.along look (acts ++ acts') = start.along look acts ++ g.along look acts' := by
  induction acts generalizing start with
  | nil =>
    obtain rfl := Option.some.inj h
    rfl
  | cons b acts ih =>
    obtain ⟨g₁, hstep, hrun⟩ := Option.bind_eq_some_iff.1 h
    simp only [List.cons_append, along, hstep, ih hrun, List.append_assoc]

theorem along_concat (h : start.run acts = some g) (a : Act W) :
    start.along look (acts ++ [a]) = start.along look acts ++ (look g a).toList := by
  rw [along_append h]
  simp only [along]
  cases g.step a <;> simp

/-- What is seen `along` a run is seen before one of its acts. -/
theorem exists_of_mem_along {x : α} (h : x ∈ start.along look acts) :
    ∃ earlier a rest g, acts = earlier ++ a :: rest ∧ start.run earlier = some g
      ∧ look g a = some x := by
  induction acts generalizing start with
  | nil => simp [along] at h
  | cons b acts ih =>
    rcases List.mem_append.1 h with hfirst | hlater
    · exact ⟨[], b, acts, start, rfl, rfl, by simpa using hfirst⟩
    · cases hstep : start.step b with
      | none => simp [hstep] at hlater
      | some g₁ =>
        rw [hstep] at hlater
        obtain ⟨earlier, a, rest, g, rfl, hrun, hlook⟩ := ih hlater
        exact ⟨b :: earlier, a, rest, g, rfl, Option.bind_eq_some_iff.2 ⟨g₁, hstep, hrun⟩, hlook⟩

end along

end Journal

end BatchJournal
