import BatchJournal.Proofs.Journal.Steps

namespace BatchJournal

/-!
# What a pass does

Every act of a pass is one of a few moves, from a place where it is possible to the next.
`Journal.PassMove` lists them, with what the pass has found out when it makes the move; whatever is
to be shown of passes is shown move by move.

* `Journal.passStep_cases` — every step of the pass under way is one of the moves.
* `Journal.begin_cases` — how a pass comes to be under way.
* `Journal.pass_cases`, `Journal.passMove_of_step` — every act of a pass is one of these.
* `Journal.stepMove_of_step` — every act of anybody is a `StepMove`: a worker's, the begin or a move
  of a pass, a restart, or one that leaves the pass aside.
* `Journal.changes_of_passMove` — all that a move may change.
* `Journal.pool_of_passMove`, `Journal.store_of_passMove`, `Journal.scan_of_passMove` — how a move
  changes the pool, the store and what is left to visit.
-/

namespace Journal

variable {W : WritePath} {g g' : Journal W} {p p' : Pass}

/-- **The moves of a pass:** `g.PassMove p act g'` — the pass `p` of `g` makes `act`, which leads to
    `g'`. -/
inductive PassMove (g : Journal W) (p : Pass) : PassAct → Journal W → Prop where
  /-- No id is left: `finish`. -/
  | exhausted (hphase : p.phase = .between) (hscan : p.scan.visit g.entries = none) :
      PassMove g p .fetch (g.finish p false)
  /-- The entry of the next id is gone. -/
  | skipped {scan : Scan} (hphase : p.phase = .between)
      (hscan : p.scan.visit g.entries = some (none, scan)) :
      PassMove g p .fetch (g.passAt { p with scan } .between)
  /-- An entry is taken in hand, at `fetched`. -/
  | fetched {e : Entry} {scan : Scan} (hphase : p.phase = .between)
      (hscan : p.scan.visit g.entries = some (some e, scan)) :
      PassMove g p .fetch (g.passAt { p with scan } (.fetched e))
  /-- The pass was asked to stop: `stopRequested`. -/
  | stopped {e : Entry} {now : Timestamp} (hphase : p.phase = .fetched e)
      (hstop : g.stopRequested p = true) : PassMove g p (.consider now) (g.finish p true)
  /-- The entry is not `eligible`. -/
  | tooYoung {e : Entry} {now : Timestamp} (hphase : p.phase = .fetched e)
      (hage : e.eligible now g.settings.replayAge = false) :
      PassMove g p (.consider now)
        (g.passAt
          { p with
            report :=
              { p.report with
                scanned := p.report.scanned + 1
                notYetEligible := p.report.notYetEligible + 1 } } .between)
  /-- The payload does not `decode`. -/
  | undecodable {e : Entry} {now : Timestamp} {err : CodecError} (hphase : p.phase = .fetched e)
      (hage : e.eligible now g.settings.replayAge = true)
      (hdecode : g.registry.decode e.version e.payload = .error err) :
      PassMove g p (.consider now)
        ({ g with
            counters := { g.counters with decodeFailures := g.counters.decodeFailures + 1 }
          }.passAt
          { p with
            report :=
              { p.report with
                scanned := p.report.scanned + 1
                decodeFailures := p.report.decodeFailures + 1 } } .between)
  /-- The entry is to be applied, at once or at the pace of the throttle. -/
  | accepted {e : Entry} {now : Timestamp} {ms : List Mutation} {phase : Phase}
      (hphase : p.phase = .fetched e) (hage : e.eligible now g.settings.replayAge = true)
      (hdecode : g.registry.decode e.version e.payload = .ok ms)
      (hnext : phase = .pacing e ms ∨ phase = .sorting e ms [] 0) :
      PassMove g p (.consider now)
        (g.passAt { p with report := { p.report with scanned := p.report.scanned + 1 } } phase)
  /-- The pace is kept, or the pass has to sleep for it. -/
  | paced {e : Entry} {ms : List Mutation} {elapsed : Nat} {throttle : Option Throttle}
      {phase : Phase} (hphase : p.phase = .pacing e ms)
      (hnext : phase = .resting e ms ∨ phase = .sorting e ms [] 0) :
      PassMove g p (.pace elapsed) (g.passAt { p with throttle } phase)
  /-- The pass was asked to stop while it slept. -/
  | wokenToStop {e : Entry} {ms : List Mutation} (hphase : p.phase = .resting e ms)
      (hstop : g.stopRequested p = true) : PassMove g p .wake (g.finish p true)
  /-- The sleep is over. -/
  | woken {e : Entry} {ms : List Mutation} (hphase : p.phase = .resting e ms) :
      PassMove g p .wake (g.passAt p (.sorting e ms [] 0))
  /-- The next mutation is left out: its table was truncated at `e.written` or later. -/
  | dropped {e : Entry} {m : Mutation} {rest live : List Mutation} {dropped : Nat}
      {truncated : Timestamp} (hphase : p.phase = .sorting e (m :: rest) live dropped)
      (htruncated : W.truncatedAt g.path m.table = some truncated)
      (hlate : e.written ≤ truncated) :
      PassMove g p .sort (g.passAt p (.sorting e rest live (dropped + 1)))
  /-- The next mutation is kept. -/
  | kept {e : Entry} {m : Mutation} {rest live : List Mutation} {dropped : Nat}
      (hphase : p.phase = .sorting e (m :: rest) live dropped)
      (hkept : ∀ truncated, W.truncatedAt g.path m.table = some truncated →
        ¬ e.written ≤ truncated) :
      PassMove g p .sort (g.passAt p (.sorting e rest (live ++ [m]) dropped))
  /-- The mutations are sorted out, and an attempt begins. -/
  | attempted {e : Entry} {live : List Mutation} {dropped : Nat}
      (hphase : p.phase = .sorting e [] live dropped) :
      PassMove g p .sort
        ({ g with attempts := g.attempts + 1, mailbox := [] }.passAt p (.offering e live 0 dropped))
  /-- Everything was handed to the pool. -/
  | offeredAll {e : Entry} {pending dropped : Nat}
      (hphase : p.phase = .offering e [] pending dropped) :
      PassMove g p .offer (g.passAt p (awaiting e pending dropped))
  /-- The pool is closed, and the attempt has failed. -/
  | refusedClosed {e : Entry} {m : Mutation} {rest : List Mutation} {pending dropped : Nat}
      (hphase : p.phase = .offering e (m :: rest) pending dropped)
      (hclosed : g.pool.closed = true) :
      PassMove g p .offer (g.passAt p (.failed e .backpressure))
  /-- The pool is open for the next mutation. -/
  | offered {e : Entry} {m : Mutation} {rest : List Mutation} {pending dropped : Nat}
      (hphase : p.phase = .offering e (m :: rest) pending dropped)
      (hopen : g.pool.closed = false) :
      PassMove g p .offer (g.passAt p (.inserting e m rest pending dropped))
  /-- The queue is full, and the attempt has failed. -/
  | refusedFull {e : Entry} {m : Mutation} {rest : List Mutation} {pending dropped : Nat}
      (hphase : p.phase = .inserting e m rest pending dropped)
      (hfull : g.pool.push (.waiting ⟨g.attempts, m, e.written⟩) = none) :
      PassMove g p .insert (g.passAt p (.failed e .backpressure))
  /-- The next mutation is in the queue. -/
  | inserted {e : Entry} {m : Mutation} {rest : List Mutation} {pending dropped : Nat}
      {pool : Pool Task} (hphase : p.phase = .inserting e m rest pending dropped)
      (hpush : g.pool.push (.waiting ⟨g.attempts, m, e.written⟩) = some pool) :
      PassMove g p .insert ({ g with pool }.passAt p (.rousing e rest (pending + 1) dropped))
  /-- A worker was woken for it, if any is `asleep`. -/
  | roused {e : Entry} {rest : List Mutation} {pending dropped : Nat} {worker : Option Nat}
      {pool : Pool Task} (hphase : p.phase = .rousing e rest pending dropped)
      (hrouse : g.pool.rouse worker = some pool) :
      PassMove g p (.rouse worker) ({ g with pool }.passAt p (.offering e rest pending dropped))
  /-- A good answer is taken from the mailbox. -/
  | collected {e : Entry} {pending dropped : Nat} {mailbox : List (Except WriteError Unit)}
      (hphase : p.phase = .collecting e pending dropped)
      (hmailbox : g.mailbox = .ok () :: mailbox) :
      PassMove g p .collect ({ g with mailbox }.passAt p (awaiting e (pending - 1) dropped))
  /-- An error is taken from the mailbox. -/
  | collectedError {e : Entry} {pending dropped : Nat} {err : WriteError}
      {mailbox : List (Except WriteError Unit)} (hphase : p.phase = .collecting e pending dropped)
      (hmailbox : g.mailbox = .error err :: mailbox) :
      PassMove g p .collect ({ g with mailbox }.passAt p (.failed e (.apply err)))
  /-- Nobody is left to answer: the attempt is not `attended`. -/
  | abandoned {e : Entry} {pending dropped : Nat} (hphase : p.phase = .collecting e pending dropped)
      (hmailbox : g.mailbox = []) (hnobody : g.attended = false) :
      PassMove g p .abandon (g.passAt p (.failed e .unacknowledged))
  /-- The deadline passes. -/
  | expired {e : Entry} {pending dropped elapsed : Nat}
      (hphase : p.phase = .collecting e pending dropped) :
      PassMove g p (.expire elapsed) (g.passAt p (.failed e (.timeout elapsed pending)))
  /-- The entry is deleted, and counted as replayed. -/
  | deleted {e : Entry} {dropped : Nat} {failure : Option StoreError} {g₁ : Journal W}
      (hphase : p.phase = .deleting e dropped)
      (hdelete : g.onStore failure (.delete e.id) = (.ok (), g₁)) :
      PassMove g p (.delete failure)
        ({ g₁ with
            counters :=
              { g₁.counters with
                replayed := g₁.counters.replayed + 1
                truncatedSkipped := g₁.counters.truncatedSkipped + dropped }
          }.passAt
          { p with
            report :=
              { p.report with
                replayed := p.report.replayed + 1
                truncatedSkipped := p.report.truncatedSkipped + dropped
                bytesReplayed := p.report.bytesReplayed + e.payload.length } } .between)
  /-- The store does not delete the entry. -/
  | undeleted {e : Entry} {dropped : Nat} {failure : Option StoreError} {err : StoreError}
      {g₁ : Journal W} (hphase : p.phase = .deleting e dropped)
      (hdelete : g.onStore failure (.delete e.id) = (.error err, g₁)) :
      PassMove g p (.delete failure)
        (g₁.passAt
          { p with report := { p.report with deleteFailures := p.report.deleteFailures + 1 } }
          .between)
  /-- The failure of an attempt is counted. -/
  | counted {e : Entry} {reason : ReplayError} (hphase : p.phase = .failed e reason) :
      PassMove g p .countFailure (g.countFailure p)
  /-- The pass breaks down. -/
  | panicked {message : String} :
      PassMove g p (.panic message) (g.passAt p (.finished (.error (.panicked message))))
  /-- The pass gives its result and is gone. -/
  | retired {result : PassResult} {control : Control} (hphase : p.phase = .finished result) :
      PassMove g p .retire { g with control, pass := none }

/-- The checks of `consider` come in this order: asked to stop, too young, not to be decoded. -/
theorem passMove_consider {e : Entry} (hphase : p.phase = .fetched e) (now : Timestamp) :
    g.PassMove p (.consider now) (g.consider p e now) := by
  unfold consider
  by_cases hstop : g.stopRequested p = true
  · rw [if_pos hstop]
    exact .stopped hphase hstop
  · rw [if_neg hstop]
    cases hage : e.eligible now g.settings.replayAge with
    | false => exact .tooYoung hphase hage
    | true =>
      cases hdecode : g.registry.decode e.version e.payload with
      | error err => exact .undecodable hphase hage hdecode
      | ok ms =>
        refine .accepted hphase hage hdecode ?_
        split
        · exact .inl rfl
        · exact .inr rfl

/-- `pace` puts a throttle to use, if there is one, and goes on or rests. -/
theorem passMove_pace {e : Entry} {ms : List Mutation} (hphase : p.phase = .pacing e ms)
    (elapsed : Nat) : g.PassMove p (.pace elapsed) (g.pace p e ms elapsed) := by
  unfold pace
  split
  · -- Without a pace the throttle that is put back is the one that there was.
    rename_i hthrottle
    have hsame : p = { p with throttle := none } := by rw [← hthrottle]
    rw [hsame]
    exact .paced hphase (.inr rfl)
  · refine .paced hphase ?_
    split
    · exact .inr rfl
    · exact .inl rfl

/-- `sort` drops or keeps the next mutation; behind the last one the attempt begins. -/
theorem passMove_sort {e : Entry} {rest live : List Mutation} {dropped : Nat}
    (hphase : p.phase = .sorting e rest live dropped) :
    g.PassMove p .sort (g.sort p e rest live dropped) := by
  cases rest with
  | nil => exact .attempted hphase
  | cons m rest =>
    simp only [sort]
    split
    · rename_i htruncated
      obtain ⟨truncated, heq, hlate⟩ := (Option.any_eq_true _ _).1 htruncated
      exact .dropped hphase heq (of_decide_eq_true hlate)
    · rename_i htruncated
      refine .kept hphase fun truncated heq hlate => htruncated ?_
      rw [heq]
      exact decide_eq_true hlate

/-- `offer` finds the pool open or closed; behind the last mutation the answers are awaited. -/
theorem passMove_offer {e : Entry} {rest : List Mutation} {pending dropped : Nat}
    (hphase : p.phase = .offering e rest pending dropped) :
    g.PassMove p .offer (g.offer p e rest pending dropped) := by
  cases rest with
  | nil => exact .offeredAll hphase
  | cons m rest =>
    simp only [offer]
    cases hclosed : g.pool.closed with
    | false => exact .offered hphase hclosed
    | true => exact .refusedClosed hphase hclosed

/-- `insert` finds the queue full, or puts the job in. -/
theorem passMove_insert {e : Entry} {m : Mutation} {rest : List Mutation} {pending dropped : Nat}
    (hphase : p.phase = .inserting e m rest pending dropped) :
    g.PassMove p .insert (g.insert p e m rest pending dropped) := by
  unfold insert
  split
  · rename_i hfull
    exact .refusedFull hphase hfull
  · rename_i pool hpush
    exact .inserted hphase hpush

/-- `collect` takes the first answer of the mailbox. -/
theorem passMove_collect {e : Entry} {pending dropped : Nat}
    (hphase : p.phase = .collecting e pending dropped)
    (h : g.collect p e pending dropped = some g') : g.PassMove p .collect g' := by
  unfold collect at h
  split at h
  · simp at h
  · rename_i mailbox hmailbox
    obtain rfl := Option.some.inj h
    exact .collected hphase hmailbox
  · rename_i err mailbox hmailbox
    obtain rfl := Option.some.inj h
    exact .collectedError hphase hmailbox

/-- `delete` succeeds or fails as the store does. -/
theorem passMove_delete {e : Entry} {dropped : Nat} (hphase : p.phase = .deleting e dropped)
    (failure : Option StoreError) :
    g.PassMove p (.delete failure) (g.delete p e dropped failure) := by
  unfold Journal.delete
  split
  · rename_i g₁ hdelete
    exact .deleted hphase hdelete
  · rename_i err g₁ hdelete
    exact .undeleted hphase hdelete

/-- **Every step of a pass is a `PassMove`.** -/
theorem passStep_cases {act : PassAct} (h : g.passStep p act = some g') : g.PassMove p act g' := by
  -- One case for each act; in each of them the phase decides whether the act is possible.
  cases act with
  | begin ticket => simp [passStep] at h
  | fetch =>
    simp only [passStep] at h
    split at h
    · rename_i hphase
      split at h <;> obtain rfl := Option.some.inj h <;> rename_i hscan
      · exact .exhausted hphase hscan
      · exact .skipped hphase hscan
      · exact .fetched hphase hscan
    · simp at h
  | consider now =>
    simp only [passStep] at h
    split at h
    · rename_i e hphase
      obtain rfl := Option.some.inj h
      exact passMove_consider hphase now
    · simp at h
  | pace elapsed =>
    simp only [passStep] at h
    split at h
    · rename_i e ms hphase
      obtain rfl := Option.some.inj h
      exact passMove_pace hphase elapsed
    · simp at h
  | wake =>
    simp only [passStep] at h
    split at h
    · rename_i e ms hphase
      obtain rfl := Option.some.inj h
      split
      · rename_i hstop
        exact .wokenToStop hphase hstop
      · exact .woken hphase
    · simp at h
  | sort =>
    simp only [passStep] at h
    split at h
    · rename_i e rest live dropped hphase
      obtain rfl := Option.some.inj h
      exact passMove_sort hphase
    · simp at h
  | offer =>
    simp only [passStep] at h
    split at h
    · rename_i e rest pending dropped hphase
      obtain rfl := Option.some.inj h
      exact passMove_offer hphase
    · simp at h
  | insert =>
    simp only [passStep] at h
    split at h
    · rename_i e m rest pending dropped hphase
      obtain rfl := Option.some.inj h
      exact passMove_insert hphase
    · simp at h
  | rouse worker =>
    simp only [passStep] at h
    split at h
    · rename_i e rest pending dropped hphase
      obtain ⟨pool, hrouse, rfl⟩ := Option.map_eq_some_iff.1 h
      exact .roused hphase hrouse
    · simp at h
  | collect =>
    simp only [passStep] at h
    split at h
    · rename_i e pending dropped hphase
      exact passMove_collect hphase h
    · simp at h
  | abandon =>
    simp only [passStep] at h
    split at h
    · rename_i e pending dropped hphase
      split at h
      · rename_i hnobody
        obtain rfl := Option.some.inj h
        simp only [Bool.and_eq_true, List.isEmpty_iff, Bool.not_eq_true'] at hnobody
        exact .abandoned hphase hnobody.1 hnobody.2
      · simp at h
    · simp at h
  | expire elapsed =>
    simp only [passStep] at h
    split at h
    · rename_i e pending dropped hphase
      split at h
      · obtain rfl := Option.some.inj h
        exact .expired hphase
      · simp at h
    · simp at h
  | delete failure =>
    simp only [passStep] at h
    split at h
    · rename_i e dropped hphase
      obtain rfl := Option.some.inj h
      exact passMove_delete hphase failure
    · simp at h
  | countFailure =>
    simp only [passStep] at h
    split at h
    · rename_i e reason hphase
      obtain rfl := Option.some.inj h
      exact .counted hphase
    · simp at h
  | panic message =>
    simp only [passStep] at h
    split at h
    · simp at h
    · obtain rfl := Option.some.inj h
      exact .panicked
  | retire =>
    simp only [passStep] at h
    split at h
    · rename_i result hphase
      obtain ⟨control, -, rfl⟩ := Option.map_eq_some_iff.1 h
      exact .retired hphase
    · simp at h

/-- **A pass begins** over what is stored now, for a ticket that is under way; no other pass is. -/
theorem begin_cases {ticket : Nat} (h : g.begin ticket = some g') :
    g.pass = none
      ∧ ∃ number throttle,
        g' = { g with
          pass := some ⟨ticket, g.store.scan, { pass := number }, throttle, .between⟩ } := by
  simp only [begin] at h
  split at h
  · simp at h
  · rename_i t hticket
    split at h
    · rename_i hfree
      obtain rfl := Option.some.inj h
      exact ⟨Option.isNone_iff_eq_none.1 (Bool.and_eq_true_iff.1 hfree).2, t.number, _, rfl⟩
    · simp at h

/-- An act of a pass is a `begin`, or a `PassMove` of the pass under way. -/
theorem pass_cases {act : PassAct} (h : g.step (.pass act) = some g') :
    (∃ ticket, act = .begin ticket ∧ g.begin ticket = some g')
      ∨ ∃ p, g.pass = some p ∧ g.PassMove p act g' := by
  cases act with
  | begin ticket => exact .inl ⟨ticket, rfl, h⟩
  | _ =>
    obtain ⟨p, hpass, hmove⟩ := Option.bind_eq_some_iff.1 h
    exact .inr ⟨p, hpass, passStep_cases hmove⟩

/-- **A pass under way:** every act of a pass is a `PassMove` of it. -/
theorem passMove_of_step {act : PassAct} (hpass : g.pass = some p)
    (h : g.step (.pass act) = some g') : g.PassMove p act g' := by
  rcases pass_cases h with ⟨ticket, rfl, hbegin⟩ | ⟨p', hpass', hmove⟩
  · obtain ⟨hnone, -⟩ := begin_cases hbegin
    simp [hpass] at hnone
  · obtain rfl := Option.some.inj (hpass.symm.trans hpass')
    exact hmove

/-- **What an act does** to a journal: a worker acts, a pass begins or moves on, the journal is
    opened again, or the act leaves the pass `Aside`. -/
inductive StepMove (g : Journal W) : Act W → Journal W → Prop
  /-- A worker acts. -/
  | worker {act : WorkerAct W} {g' : Journal W} (hstep : g.workerStep act = some g') :
      g.StepMove (.worker act) g'
  /-- A pass begins where there was none. -/
  | begun {ticket number : Nat} {throttle : Option Throttle} (hnone : g.pass = none) :
      g.StepMove (.pass (.begin ticket))
        { g with pass := some ⟨ticket, g.store.scan, { pass := number }, throttle, .between⟩ }
  /-- The pass under way moves on. -/
  | passed {p : Pass} {act : PassAct} {g' : Journal W} (hpass : g.pass = some p)
      (hmove : g.PassMove p act g') : g.StepMove (.pass act) g'
  /-- The journal is opened again. -/
  | restarted {directory : String} {ending : Ending} {store : Store} :
      g.StepMove (.restart directory ending)
        (opened g.settings g.registry store g.path (g.outlasting ending))
  /-- Anybody else acts, and at most closes the pool or clears it. -/
  | aside {a : Act W} {store : Store} {path : W.State} {pool : Pool Task} {control : Control}
      {seen : Nat} (ha : Act.concerns a = false)
      (hpool : pool = g.pool ∨ pool = g.pool.close ∨ g.pool.closed = true ∧ pool = g.pool.clear) :
      g.StepMove a { g with store, path, pool, control, counters := { g.counters with seen } }

/-- **Every act** is one of these. -/
theorem stepMove_of_step {a : Act W} (h : g.step a = some g') : g.StepMove a g' := by
  cases a with
  | worker act => exact .worker h
  | pass act =>
    rcases pass_cases h with ⟨ticket, rfl, hbegin⟩ | ⟨p, hpass, hmove⟩
    · obtain ⟨hnone, number, throttle, rfl⟩ := begin_cases hbegin
      exact .begun hnone
    · exact .passed hpass hmove
  | restart directory ending =>
    obtain ⟨store, rfl⟩ := opened_of_restart h
    exact .restarted
  | client _ | path _ | control _ | closePool | clearPool =>
    obtain ⟨store, path, pool, control, seen, rfl, hpool⟩ := aside_cases rfl h
    exact .aside rfl hpool

/-! ### What a move changes -/

/-- **What a pass may change:** neither `settings` nor `registry`, neither `path` nor `strays`. -/
theorem changes_of_passMove {act : PassAct} (h : g.PassMove p act g') :
    ∃ store pool counters control attempts mailbox pass,
      g' = { g with store, pool, counters, control, attempts, mailbox, pass } := by
  cases h with
  | deleted hphase hdelete | undeleted hphase hdelete =>
    obtain ⟨store, rfl⟩ := exists_store_of_onStore hdelete
    exact ⟨_, _, _, _, _, _, _, rfl⟩
  | _ => exact ⟨_, _, _, _, _, _, _, rfl⟩

theorem configuration_of_passMove {act : PassAct} (h : g.PassMove p act g') :
    g'.settings = g.settings ∧ g'.registry = g.registry := by
  obtain ⟨store, pool, counters, control, attempts, mailbox, pass, rfl⟩ := changes_of_passMove h
  exact ⟨rfl, rfl⟩

/-- A pass is under way until it is `retired`. -/
theorem exists_pass_of_passMove {act : PassAct} (h : g.PassMove p act g') (hstay : act ≠ .retire) :
    ∃ p', g'.pass = some p' := by
  cases h with
  | retired hphase => exact absurd rfl hstay
  | _ => exact ⟨_, rfl⟩

/-- What a pass does to the store is to `delete` an entry. -/
theorem store_of_passMove {act : PassAct} (h : g.PassMove p act g') :
    g'.store = g.store
      ∨ ∃ failure id, g'.store = (g.onStore failure (.delete id)).2.store := by
  cases h with
  | deleted hphase hdelete => exact .inr ⟨_, _, by rw [hdelete]; rfl⟩
  | undeleted hphase hdelete => exact .inr ⟨_, _, by rw [hdelete]; rfl⟩
  | _ => exact .inl rfl

/-- **What a pass does to the pool** is to `push` a job of its latest attempt, or to `rouse` a
    worker. -/
theorem pool_of_passMove {act : PassAct} (h : g.PassMove p act g') :
    g'.pool = g.pool ∧ g.attempts ≤ g'.attempts
      ∨ g'.attempts = g.attempts
        ∧ ((∃ m written, g.pool.push (.waiting ⟨g.attempts, m, written⟩) = some g'.pool)
          ∨ ∃ worker, g.pool.rouse worker = some g'.pool) := by
  cases h with
  | inserted hphase hpush => exact .inr ⟨rfl, .inl ⟨_, _, hpush⟩⟩
  | roused hphase hrouse => exact .inr ⟨rfl, .inr ⟨_, hrouse⟩⟩
  | attempted hphase => exact .inl ⟨rfl, Nat.le_succ _⟩
  | deleted hphase hdelete | undeleted hphase hdelete =>
    obtain ⟨store, rfl⟩ := exists_store_of_onStore hdelete
    exact .inl ⟨rfl, Nat.le_refl _⟩
  | _ => exact .inl ⟨rfl, Nat.le_refl _⟩

/-- **What a pass has left to visit:** the ids of `p.scan`, without the first one if that is where
    the move takes it.  There it finds an entry that it takes in hand, or none. -/
theorem scan_of_passMove {act : PassAct} (h : g.PassMove p act g') (hpass : g'.pass = some p') :
    p'.scan = p.scan ∧ (∀ e, p'.phase ≠ .fetched e)
      ∨ ∃ id scan phase, p.phase = .between ∧ p.scan.ids = id :: scan.ids
        ∧ g' = g.passAt { p with scan } phase ∧ p' = { p with scan, phase }
        ∧ (g.entries.get? id = none ∧ phase = .between
          ∨ ∃ e, g.entries.get? id = some e ∧ phase = .fetched e) := by
  -- Only a look at the next id changes the scan; every other move leaves it alone.
  cases h with
  | skipped hphase hscan =>
    obtain rfl := Option.some.inj hpass
    obtain ⟨id, hids, hnone⟩ := Scan.visit_eq_some_iff.1 hscan
    exact .inr ⟨id, _, _, hphase, hids, rfl, rfl, .inl ⟨hnone, rfl⟩⟩
  | fetched hphase hscan =>
    obtain rfl := Option.some.inj hpass
    obtain ⟨id, hids, hfound⟩ := Scan.visit_eq_some_iff.1 hscan
    exact .inr ⟨id, _, _, hphase, hids, rfl, rfl, .inr ⟨_, hfound, rfl⟩⟩
  | accepted hphase hage hdecode hnext | paced hphase hnext =>
    obtain rfl := Option.some.inj hpass
    rcases hnext with rfl | rfl <;> exact .inl ⟨rfl, by simp⟩
  -- Where these lead hangs on the number of acknowledgements that are missing.
  | offeredAll hphase | collected hphase hmailbox =>
    obtain rfl := Option.some.inj hpass
    refine .inl ⟨rfl, fun e => ?_⟩
    show awaiting _ _ _ ≠ _
    unfold awaiting
    split <;> simp
  | retired hphase => simp at hpass
  | _ =>
    obtain rfl := Option.some.inj hpass
    exact .inl ⟨rfl, by simp⟩

end Journal

end BatchJournal
