import BatchJournal.Proofs.Replay.Effort

namespace BatchJournal

/-!
# What a pass deletes

When the write path answers every delivery well, no deadline passes and the store carries out its
deletions, the one thing that can keep an eligible entry in the store is the pool: a mutation that
finds the queue full is refused, and its entry with it.  So a pass that is not cancelled deletes
every eligible entry that decodes if there is room whenever one of its mutations is put in; and
whatever the workers do there is room if the mutations of any one entry fit into the queue beside
the jobs that wait when the pass begins.

* `Journal.Due` — where an entry is that the pass is going to delete.
* `Journal.Uncrowded` — the queue holds little more than what the attempt under way has put in.
* `Journal.gone_of_pass` — what a pass deletes.
* `Journal.spared_for_size` — an entry that carries more mutations than the queue takes may stay.
-/

namespace Phase

/-- The entry that a pass has in hand and has not failed to apply. -/
def pursued? : Phase → Option Entry
  | .failed _ _ => none
  | phase => phase.held?

/-- The pass is over before it has seen everything: it broke down or was cancelled. -/
def cutShort : Phase → Bool
  | .finished (.error _) => true
  | .finished (.ok report) => report.cancelled
  | _ => false

end Phase

namespace Journal

variable {W : WritePath} {start g g' : Journal W} {p p' : Pass} {a : Act W} {acts : List (Act W)}
  {e : Entry} {ms : List Mutation}

/-- **The entry is old enough** when its turn comes: `eligible` at the `consider` for it. -/
def oldEnough (e : Entry) (g : Journal W) : Act W → Bool
  | .pass (.consider now) => g.inHand? = some e → e.eligible now g.settings.replayAge
  | _ => true

/-- **No deadline passes** for the entry: no `expire` while it is in hand. -/
def patient (e : Entry) (g : Journal W) : Act W → Bool
  | .pass (.expire _) => g.inHand? ≠ some e
  | _ => true

theorem patient_of_smooth (h : g.smooth a = true) : g.patient e a = true := by
  cases a with
  | pass act =>
    cases act with
    | expire elapsed => exact absurd h Bool.false_ne_true
    | _ => rfl
  | _ => rfl

/-- **There is room** at every `insert` while the entry is in hand. -/
def roomFor (e : Entry) (g : Journal W) : Act W → Bool
  | .pass .insert => g.inHand? = some e → g.pool.queue.length < g.pool.capacity
  | _ => true

/-- **The store deletes** the entry at the `delete` for it. -/
def deletable (e : Entry) (g : Journal W) : Act W → Bool
  | .pass (.delete failure) => g.inHand? = some e → (g.onStore failure (.delete e.id)).1.isOk
  | _ => true

/-! ### An entry that is due -/

/-- **An entry that is due:** the scan comes to it, or it is gone, or the pass has it in hand;
    unless the pass was `cutShort`. -/
def Due (e : Entry) (g : Journal W) (p : Pass) : Prop :=
  e.id ∈ p.scan.ids ∨ g.entries.get? e.id = none ∨ p.phase.pursued? = some e
    ∨ p.phase.cutShort = true

/-- An entry that is `pursued?` is in hand. -/
theorem inHand?_of_pursued {phase : Phase} (hpass : g.pass = some p) (hphase : p.phase = phase)
    (h : phase.pursued? = some e) : g.inHand? = some e := by
  have hentry : phase.held? = some e := by
    cases phase <;> first | exact h | simp [Phase.pursued?] at h
  simp [inHand?, hpass, hphase, hentry]

theorem pursued?_awaiting {e : Entry} {pending dropped : Nat} :
    (awaiting e pending dropped).pursued? = some e := by
  unfold awaiting
  split <;> rfl

/-- **A pass that is `finished`** can only break down, or give its result and go. -/
theorem move_of_finished {act : PassAct} {result : PassResult} (hphase : p.phase = .finished result)
    (hmove : g.PassMove p act g') :
    (∃ message, act = .panic message ∧ g' = g.passAt p (.finished (.error (.panicked message))))
      ∨ act = .retire ∧ ∃ control, g' = { g with control, pass := none } := by
  have hover : ∀ {phase : Phase}, p.phase = phase → phase = .finished result := fun h =>
    h.symm.trans hphase
  cases hmove with
  | panicked => exact .inl ⟨_, rfl, rfl⟩
  | retired h => exact .inr ⟨rfl, _, rfl⟩
  | exhausted h | skipped h | fetched h | stopped h | tooYoung h | undecodable h | accepted h
  | paced h | wokenToStop h | woken h | dropped h | kept h | attempted h | offeredAll h
  | refusedClosed h | offered h | refusedFull h | inserted h | roused h | collected h
  | collectedError h | abandoned h | expired h | deleted h | undeleted h | counted h =>
    exact absurd (hover h) (by simp)

/-- **A pass that was `cutShort`** stays so. -/
theorem cutShort_of_move {act : PassAct} (hcut : p.phase.cutShort = true)
    (hmove : g.PassMove p act g') (hstay : act ≠ .retire) :
    ∃ p', g'.pass = some p' ∧ p'.phase.cutShort = true := by
  have hfinished : ∃ result, p.phase = .finished result := by
    cases hphase : p.phase with
    | finished result => exact ⟨result, rfl⟩
    | _ => simp [hphase, Phase.cutShort] at hcut
  obtain ⟨result, hphase⟩ := hfinished
  rcases move_of_finished hphase hmove with ⟨message, -, rfl⟩ | ⟨hretire, -⟩
  · exact ⟨_, rfl, rfl⟩
  · exact absurd hretire hstay

/-- **How a pass lets go** of the entry `e` that it pursues. -/
inductive LetsGo (g : Journal W) (p : Pass) (e : Entry) : PassAct → Prop where
  /-- `e` is too young. -/
  | tooYoung {now : Timestamp} (hage : e.eligible now g.settings.replayAge = false) :
      LetsGo g p e (.consider now)
  /-- `e` does not decode. -/
  | undecodable {now : Timestamp} {err : CodecError}
      (hdecode : g.registry.decode e.version e.payload = .error err) : LetsGo g p e (.consider now)
  /-- The pool is closed. -/
  | closed (hclosed : g.pool.closed = true) : LetsGo g p e .offer
  /-- The queue is full. -/
  | full (hfull : g.pool.capacity ≤ g.pool.queue.length) : LetsGo g p e .insert
  /-- An error is taken from the mailbox. -/
  | refused {pending dropped : Nat} {err : WriteError} {mailbox : List (Except WriteError Unit)}
      (hphase : p.phase = .collecting e pending dropped)
      (hmailbox : g.mailbox = .error err :: mailbox) : LetsGo g p e .collect
  /-- Nobody is left to answer. -/
  | abandoned {pending dropped : Nat} (hphase : p.phase = .collecting e pending dropped)
      (hmailbox : g.mailbox = []) (hnobody : g.attended = false) : LetsGo g p e .abandon
  /-- The deadline passes. -/
  | expired {elapsed : Nat} : LetsGo g p e (.expire elapsed)
  /-- `e` was delivered in full, and the store is asked to delete it. -/
  | delivered {failure : Option StoreError} : LetsGo g p e (.delete failure)

/-- **An entry that is `pursued?`** is so after the move, unless the pass `LetsGo` of it, deletes it
    or is `cutShort`. -/
theorem pursued_of_passMove {act : PassAct} (hpursued : p.phase.pursued? = some e)
    (hmove : g.PassMove p act g') (hstay : act ≠ .retire) (hpass : g'.pass = some p') :
    p'.phase.pursued? = some e ∨ p'.phase.cutShort = true ∨ LetsGo g p e act := by
  have hsame : ∀ {phase : Phase} {e' : Entry}, p.phase = phase → phase.pursued? = some e' →
      e' = e := by
    intro phase e' hphase hentry
    rw [hphase, hentry] at hpursued
    exact Option.some.inj hpursued
  -- One case for each move: the entry is still pursued, the pass is cut short, or it lets go of the
  -- entry for a reason.
  cases hmove with
  | exhausted hphase hscan | skipped hphase hscan | fetched hphase hscan =>
    simp [hphase, Phase.pursued?, Phase.held?] at hpursued
  | counted hphase => simp [hphase, Phase.pursued?] at hpursued
  | stopped hphase hstop | wokenToStop hphase hstop | panicked =>
    obtain rfl := Option.some.inj hpass
    exact .inr (.inl rfl)
  | tooYoung hphase hage =>
    obtain rfl := hsame hphase rfl
    exact .inr (.inr (.tooYoung hage))
  | undecodable hphase hage herror =>
    obtain rfl := hsame hphase rfl
    exact .inr (.inr (.undecodable herror))
  | accepted hphase hage hdecode hplace | paced hphase hplace =>
    obtain rfl := Option.some.inj hpass
    obtain rfl := hsame hphase rfl
    rcases hplace with rfl | rfl <;> exact .inl rfl
  | woken hphase | dropped hphase htruncated hlate | kept hphase hkept | attempted hphase
  | offered hphase hopen | inserted hphase hpush | roused hphase hrouse =>
    obtain rfl := Option.some.inj hpass
    obtain rfl := hsame hphase rfl
    exact .inl rfl
  | offeredAll hphase | collected hphase hmailbox =>
    obtain rfl := Option.some.inj hpass
    obtain rfl := hsame hphase rfl
    exact .inl pursued?_awaiting
  | refusedClosed hphase hclosed => exact .inr (.inr (.closed hclosed))
  | refusedFull hphase hfull => exact .inr (.inr (.full (Pool.push_eq_none_iff.1 hfull)))
  | collectedError hphase hmailbox =>
    obtain rfl := hsame hphase rfl
    exact .inr (.inr (.refused hphase hmailbox))
  | abandoned hphase hmailbox hnobody =>
    obtain rfl := hsame hphase rfl
    exact .inr (.inr (.abandoned hphase hmailbox hnobody))
  | expired hphase => exact .inr (.inr .expired)
  | deleted hphase hdelete | undeleted hphase hdelete => exact .inr (.inr .delivered)
  | retired hphase => exact absurd rfl hstay

/-- **What the store deletes** when the pass asks for it is gone. -/
theorem gone_of_delete {failure : Option StoreError} (hundisturbed : Undisturbed start g p)
    (hpursued : p.phase.pursued? = some e)
    (hgone : (g.onStore failure (.delete e.id)).1.isOk = true)
    (hmove : g.PassMove p (.delete failure) g') : g'.entries.get? e.id = none := by
  cases hmove with
  | deleted hphase hdelete =>
    rw [hphase] at hpursued
    obtain rfl := Option.some.inj hpursued
    obtain ⟨store, rfl⟩ := exists_store_of_onStore hdelete
    obtain ⟨-, hentries⟩ := entries_of_onStore hundisturbed.sound hdelete
    show ({ g with store } : Journal W).entries.get? _ = none
    rw [hentries, StoreOp.effect, Entries.get?_delete, if_pos rfl]
  | undeleted hphase hdelete =>
    rw [hphase] at hpursued
    obtain rfl := Option.some.inj hpursued
    rw [hdelete] at hgone
    exact absurd hgone Bool.false_ne_true

/-- **An id that is still to be visited** is visited later, or just now: then nothing is stored
    under it, or the entry `e` that was stored at the start is taken in hand. -/
theorem due_of_mem_scan {act : PassAct} (hleft : e.id ∈ p.scan.ids)
    (hundisturbed : Undisturbed start g p) (hstored : start.entries.get? e.id = some e)
    (hmove : g.PassMove p act g') (hpass : g'.pass = some p') : Due e g' p' := by
  rcases scan_of_passMove hmove hpass with
    ⟨hscan, -⟩ | ⟨id, scan, phase, -, hids, rfl, rfl, hfound⟩
  · exact .inl (hscan ▸ hleft)
  · rw [hids, List.mem_cons] at hleft
    rcases hleft with rfl | hlater
    · rcases hfound with ⟨hnone, rfl⟩ | ⟨e', hsome, rfl⟩
      · exact .inr (.inl hnone)
      · -- Nothing was stored since the pass began, so it is the entry itself.
        have hsame := (hundisturbed.stored _ _ hsome).symm.trans hstored
        exact .inr (.inr (.inl hsame))
    · exact .inl hlater

/-- **An entry that is `pursued?` stays `Due`** where none of the reasons to let go of it holds:
    then it is delivered in full, and gone from the store. -/
theorem due_of_pursued {act : PassAct} (hpursued : p.phase.pursued? = some e)
    (hundisturbed : Undisturbed start g p) (hsucceeding : Succeeding g p.scan p.phase)
    (hdecode : start.registry.decode e.version e.payload = .ok ms)
    (hstay : act ≠ .retire) (hpatient : g.patient e (.pass act) = true)
    (hage : g.oldEnough e (.pass act) = true) (hroom : g.roomFor e (.pass act) = true)
    (hdeletion : g.deletable e (.pass act) = true) (hmove : g.PassMove p act g')
    (hpass : g'.pass = some p') : Due e g' p' := by
  have hhand : g.inHand? = some e := inHand?_of_pursued hundisturbed.pass rfl hpursued
  rcases pursued_of_passMove hpursued hmove hstay hpass with hfurther | hcut | hgoes
  · exact .inr (.inr (.inl hfurther))
  · exact .inr (.inr (.inr hcut))
  · -- Each reason to let go of the entry is excluded by a hypothesis, but for the delivery.
    cases hgoes with
    | tooYoung hyoung =>
      have hold := of_decide_eq_true hage hhand
      exact absurd (hold.symm.trans hyoung) (by simp)
    | undecodable herror =>
      rw [hundisturbed.registry, hdecode] at herror
      simp at herror
    | closed hclosed => exact (hundisturbed.no_closed hclosed).elim
    | full hfull =>
      have hlt := of_decide_eq_true hroom hhand
      omega
    | refused hphase hmailbox =>
      rw [hphase] at hsucceeding
      exact (hsucceeding.no_error hmailbox).elim
    | abandoned hphase hmailbox hnobody =>
      rw [hphase] at hsucceeding
      exact (hsucceeding.no_abandon hmailbox hnobody).elim
    | expired => exact absurd hhand (of_decide_eq_true hpatient)
    | delivered =>
      have hgone := of_decide_eq_true hdeletion hhand
      exact .inr (.inl (gone_of_delete hundisturbed hpursued hgone hmove))

/-- **The pass keeps an entry `Due`** that decodes, if its attempt is `Succeeding`, it is
    `oldEnough`, and it is `deletable` and finds `roomFor` its mutations. -/
theorem Due.move {act : PassAct} (h : Due e g p) (hundisturbed : Undisturbed start g p)
    (hsucceeding : p.phase.pursued? = some e → Succeeding g p.scan p.phase)
    (hstored : start.entries.get? e.id = some e)
    (hdecode : start.registry.decode e.version e.payload = .ok ms)
    (hstay : act ≠ .retire) (hpatient : g.patient e (.pass act) = true)
    (hage : g.oldEnough e (.pass act) = true) (hroom : g.roomFor e (.pass act) = true)
    (hdeletion : g.deletable e (.pass act) = true) (hmove : g.PassMove p act g')
    (hpass : g'.pass = some p') : Due e g' p' := by
  -- It is still to be visited, gone, pursued, or the pass was cut short.
  rcases h with hleft | hgone | hpursued | hcut
  · exact due_of_mem_scan hleft hundisturbed hstored hmove hpass
  · rcases (get?_of_passMove hundisturbed.sound hmove).2 e.id with hgone' | hsame
    · exact .inr (.inl hgone')
    · exact .inr (.inl (hsame.trans hgone))
  · exact due_of_pursued hpursued hundisturbed (hsucceeding hpursued) hdecode hstay hpatient hage
      hroom hdeletion hmove hpass
  · obtain ⟨p₁, hp₁, hcut'⟩ := cutShort_of_move hcut hmove hstay
    obtain rfl := Option.some.inj (hp₁.symm.trans hpass)
    exact .inr (.inr (.inr hcut'))

/-- An entry stays `Due` whatever comes next of workers and pass. -/
theorem Due.step (h : Due e g p) (hundisturbed : Undisturbed start g p)
    (hsucceeding : p.phase.pursued? = some e → Succeeding g p.scan p.phase)
    (hstored : start.entries.get? e.id = some e)
    (hdecode : start.registry.decode e.version e.payload = .ok ms) (hwithin : Act.within a = true)
    (hpatient : g.patient e a = true) (hage : g.oldEnough e a = true) (hroom : g.roomFor e a = true)
    (hdeletion : g.deletable e a = true) (hstep : g.step a = some g') (hpass : g'.pass = some p') :
    Due e g' p' := by
  rcases hundisturbed.cases hwithin hstep hpass with ⟨rfl, hbeside⟩ | ⟨act, rfl, hstay, hmove⟩
  · unfold Due at h ⊢
    rwa [entries, hbeside.store]
  · exact h.move hundisturbed hsucceeding hstored hdecode hstay hpatient hage hroom hdeletion hmove
      hpass

/-- **What is `Due` is gone** once a pass has come to its report without being cancelled: it has
    nothing in hand and nothing left to visit. -/
theorem Due.gone (h : Due e g p) {report : Report} (hfinished : p.phase = .finished (.ok report))
    (huncancelled : report.cancelled = false) (hids : p.scan.ids = []) :
    g.entries.get? e.id = none := by
  unfold Due at h
  rw [hfinished, hids] at h
  rcases h with hleft | hgone | hpursued | hcut
  · exact absurd hleft List.not_mem_nil
  · exact hgone
  · exact absurd hpursued (by simp [Phase.pursued?, Phase.held?])
  · exact absurd (hcut.symm.trans huncancelled) (by simp)

/-! ### Room in the queue -/

/-- How many jobs in the queue are not of the latest attempt. -/
def foreign (g : Journal W) : Nat := g.pool.queue.countP fun t => !t.belongs g.attempts

theorem foreign_le (g : Journal W) : g.foreign ≤ g.pool.queue.length := List.countP_le_length

/-- The jobs in the queue are those of the latest attempt and the `foreign` ones. -/
theorem queue_length_le (g : Journal W) :
    g.pool.queue.length ≤ g.pool.tally (Task.belongs g.attempts) + g.foreign := by
  have hsplit := List.length_eq_countP_add_countP (Task.belongs g.attempts) (l := g.pool.queue)
  have hmine := Pool.countP_queue_le (Task.belongs g.attempts) g.pool
  simp only [Bool.not_eq_true, Bool.decide_eq_false] at hsplit
  rw [hsplit, foreign]
  omega

/-- **Uncrowded:** the queue holds at most `others` jobs beside those of the attempt under way, and
    the mutations that the pass has in hand fit in there. -/
def Uncrowded (others : Nat) (g : Journal W) : Phase → Prop
  | .between | .fetched _ => g.pool.queue.length ≤ others
  | .pacing _ ms | .resting _ ms =>
    g.pool.queue.length ≤ others ∧ others + ms.length ≤ g.pool.capacity
  | .sorting _ rest live _ =>
    g.pool.queue.length ≤ others ∧ others + (rest.length + live.length) ≤ g.pool.capacity
  | .offering _ rest pending _ | .rousing _ rest pending _ =>
    g.foreign ≤ others ∧ others + (pending + rest.length) ≤ g.pool.capacity
  | .inserting _ _ rest pending _ =>
    g.foreign ≤ others ∧ others + (pending + rest.length + 1) ≤ g.pool.capacity
  | .collecting _ _ _ | .deleting _ _ => g.foreign ≤ others
  | .finished _ => True
  | .failed _ _ => False

/-- At `awaiting` everything is put in, and `foreign` is all there is to be bounded. -/
theorem uncrowded_awaiting {others pending dropped : Nat} (h : g.foreign ≤ others) :
    Uncrowded others g (awaiting e pending dropped) := by
  unfold awaiting
  split <;> exact h

/-- **At `inserting` the next mutation fits in:** of the attempt only those wait that nobody has
    answered. -/
theorem Uncrowded.lt_capacity {others : Nat} (h : Uncrowded others g p.phase)
    (hcourse : OnCourse start g p) {m : Mutation} {rest : List Mutation} {pending dropped : Nat}
    (hphase : p.phase = .inserting e m rest pending dropped) :
    g.pool.queue.length < g.pool.capacity := by
  have hwaits := hcourse.succeeding
  rw [hphase] at h hwaits
  obtain ⟨hforeign, hfits⟩ := h
  have hcounted := hwaits.counted
  have hlength := g.queue_length_le
  omega

/-- A pass that makes an `insert` is at `inserting`. -/
theorem inserting_of_insert (h : g.PassMove p .insert g') :
    ∃ e m rest pending dropped, p.phase = .inserting e m rest pending dropped := by
  cases h with
  | refusedFull hphase hfull => exact ⟨_, _, _, _, _, hphase⟩
  | inserted hphase hpush => exact ⟨_, _, _, _, _, hphase⟩

/-- **Nobody else crowds the queue:** who acts `Beside` the pass keeps `Uncrowded`. -/
theorem Uncrowded.beside {others : Nat} {phase : Phase} (h : Uncrowded others g phase)
    (hbeside : g.Beside g') : Uncrowded others g' phase := by
  obtain ⟨-, hattempts, -, -, -, hkeeps⟩ := hbeside
  have hlength : g'.pool.queue.length ≤ g.pool.queue.length := hkeeps.queue.length_le
  have hforeign : g'.foreign ≤ g.foreign := by
    rw [foreign, foreign, hattempts]
    exact hkeeps.queue.sublist.countP_le
  have hcapacity := hkeeps.capacity
  unfold Uncrowded at h ⊢
  -- What the phase bounds is the queue before the attempt and the jobs of others during it.
  cases phase with
  | failed e reason | finished result => exact h
  | between | fetched e => exact Nat.le_trans hlength h
  | collecting e pending dropped | deleting e dropped => exact Nat.le_trans hforeign h
  | pacing e ms | resting e ms | sorting e rest live dropped =>
    exact ⟨Nat.le_trans hlength h.1, by rw [hcapacity]; exact h.2⟩
  | offering e rest pending dropped | rousing e rest pending dropped
  | inserting e m rest pending dropped =>
    exact ⟨Nat.le_trans hforeign h.1, by rw [hcapacity]; exact h.2⟩

/-- Where a pass accepts an entry, `start` had it stored, so its mutations fit in. -/
theorem Uncrowded.accept {others : Nat} {phase : Phase} (h : Uncrowded others g p.phase)
    (hcourse : OnCourse start g p)
    (hfits : ∀ e ms, start.entries.get? e.id = some e →
      start.registry.decode e.version e.payload = .ok ms →
      others + ms.length ≤ start.pool.capacity)
    (hphase : p.phase = .fetched e) (hdecode : g.registry.decode e.version e.payload = .ok ms)
    (hnext : phase = .pacing e ms ∨ phase = .sorting e ms [] 0) : Uncrowded others g phase := by
  rw [hphase] at h
  have hheld := hcourse.undisturbed.held _ (by rw [hphase]; rfl)
  rw [hcourse.undisturbed.registry] at hdecode
  have hfit := hfits _ _ hheld hdecode
  rw [← hcourse.undisturbed.room.2] at hfit
  rcases hnext with rfl | rfl <;> exact ⟨h, hfit⟩

/-- At `sort` the mutations that are left fit in as before. -/
theorem Uncrowded.sort {others : Nat} (h : Uncrowded others g p.phase)
    (hmove : g.PassMove p .sort g') (hpass : g'.pass = some p') : Uncrowded others g' p'.phase := by
  cases hmove with
  | dropped hphase htruncated hlate =>
    obtain rfl := Option.some.inj hpass
    rw [hphase] at h
    obtain ⟨hqueue, hfit⟩ := h
    rw [List.length_cons] at hfit
    exact ⟨hqueue, by show _ ≤ g.pool.capacity; omega⟩
  | kept hphase hkept =>
    rename_i e m rest live dropped
    obtain rfl := Option.some.inj hpass
    rw [hphase] at h
    obtain ⟨hqueue, hfit⟩ := h
    rw [List.length_cons] at hfit
    refine ⟨hqueue, ?_⟩
    show others + (rest.length + (live ++ [m]).length) ≤ g.pool.capacity
    rw [List.length_append, List.length_singleton]
    omega
  | attempted hphase =>
    -- All that waits in the queue is of earlier attempts now.
    obtain rfl := Option.some.inj hpass
    rw [hphase] at h
    obtain ⟨hqueue, hfit⟩ := h
    refine ⟨Nat.le_trans (foreign_le _) hqueue, ?_⟩
    rw [List.length_nil] at hfit
    exact hfit

/-- At `insert` the mutation becomes a job of the attempt itself, and it fits in. -/
theorem Uncrowded.insert {others : Nat} (h : Uncrowded others g p.phase)
    (hcourse : OnCourse start g p) (hmove : g.PassMove p .insert g') (hpass : g'.pass = some p') :
    Uncrowded others g' p'.phase := by
  cases hmove with
  | refusedFull hphase hfull =>
    have hlt := h.lt_capacity hcourse hphase
    have hge := Pool.push_eq_none_iff.1 hfull
    omega
  | inserted hphase hpush =>
    rename_i e m rest pending dropped pool
    obtain rfl := Option.some.inj hpass
    rw [hphase] at h
    -- The job is of the attempt under way, so it does not count among those of others.
    obtain ⟨hforeign, hfit⟩ := h
    obtain ⟨hqueue, hcapacity, -⟩ := Pool.queue_push hpush
    refine ⟨?_, ?_⟩
    · show pool.queue.countP (fun t => !t.belongs g.attempts) ≤ others
      have hmine : Task.belongs g.attempts (.waiting ⟨g.attempts, m, e.written⟩) = true :=
        decide_eq_true rfl
      rw [hqueue, List.countP_append, List.countP_singleton, hmine]
      exact hforeign
    · show others + (pending + 1 + rest.length) ≤ pool.capacity
      rw [hcapacity]
      omega

/-- At `rouse` nothing changes in the queue. -/
theorem Uncrowded.rouse {others : Nat} {worker : Option Nat} (h : Uncrowded others g p.phase)
    (hmove : g.PassMove p (.rouse worker) g') (hpass : g'.pass = some p') :
    Uncrowded others g' p'.phase := by
  cases hmove with
  | roused hphase hrouse =>
    rename_i e rest pending dropped pool
    obtain rfl := Option.some.inj hpass
    rw [hphase] at h
    obtain ⟨hforeign, hfit⟩ := h
    obtain ⟨hqueue, hcapacity, -⟩ := Pool.queue_rouse hrouse
    refine ⟨?_, ?_⟩
    · show pool.queue.countP (fun t => !t.belongs g.attempts) ≤ others
      rw [hqueue]
      exact hforeign
    · show others + (pending + rest.length) ≤ pool.capacity
      rw [hcapacity]
      exact hfit

/-- At `delete` every job of the attempt was acknowledged, so only the others are left in the
    queue. -/
theorem Uncrowded.delete {others : Nat} {failure : Option StoreError}
    (h : Uncrowded others g p.phase) (hcourse : OnCourse start g p)
    (hmove : g.PassMove p (.delete failure) g') (hpass : g'.pass = some p') :
    Uncrowded others g' p'.phase := by
  have hsucceeding := hcourse.succeeding
  cases hmove with
  | deleted hphase hdelete | undeleted hphase hdelete =>
    obtain ⟨store, rfl⟩ := exists_store_of_onStore hdelete
    obtain rfl := Option.some.inj hpass
    rw [hphase] at h hsucceeding
    have hcounted := hsucceeding.counted
    have hlength := g.queue_length_le
    have hforeign : g.foreign ≤ others := h
    show g.pool.queue.length ≤ others
    omega

/-- **The pass keeps `Uncrowded`** if the mutations of each stored entry fit in. -/
theorem Uncrowded.move {others : Nat} {act : PassAct} (h : Uncrowded others g p.phase)
    (hcourse : OnCourse start g p) (hsmooth : g.smooth (.pass act) = true)
    (hfits : ∀ e ms, start.entries.get? e.id = some e →
      start.registry.decode e.version e.payload = .ok ms →
      others + ms.length ≤ start.pool.capacity)
    (hmove : g.PassMove p act g') (hpass : g'.pass = some p') :
    Uncrowded others g' p'.phase := by
  cases hmove with
  | skipped hphase hscan | fetched hphase hscan | tooYoung hphase hage
  | undecodable hphase hage hdecode | woken hphase | offered hphase hopen =>
    obtain rfl := Option.some.inj hpass
    rw [hphase] at h
    exact h
  | exhausted hphase hscan | stopped hphase hstop | wokenToStop hphase hstop | panicked =>
    obtain rfl := Option.some.inj hpass
    trivial
  | accepted hphase hage hdecode hnext =>
    obtain rfl := Option.some.inj hpass
    exact h.accept hcourse hfits hphase hdecode hnext
  | paced hphase hnext =>
    obtain rfl := Option.some.inj hpass
    rw [hphase] at h
    rcases hnext with rfl | rfl <;> exact h
  | dropped hphase htruncated hlate => exact h.sort (.dropped hphase htruncated hlate) hpass
  | kept hphase hkept => exact h.sort (.kept hphase hkept) hpass
  | attempted hphase => exact h.sort (.attempted hphase) hpass
  | offeredAll hphase =>
    obtain rfl := Option.some.inj hpass
    rw [hphase] at h
    exact uncrowded_awaiting h.1
  | collected hphase hmailbox =>
    obtain rfl := Option.some.inj hpass
    rw [hphase] at h
    exact uncrowded_awaiting h
  | refusedFull hphase hfull => exact h.insert hcourse (.refusedFull hphase hfull) hpass
  | inserted hphase hpush => exact h.insert hcourse (.inserted hphase hpush) hpass
  | roused hphase hrouse => exact h.rouse (.roused hphase hrouse) hpass
  | deleted hphase hdelete => exact h.delete hcourse (.deleted hphase hdelete) hpass
  | undeleted hphase hdelete => exact h.delete hcourse (.undeleted hphase hdelete) hpass
  -- What is left are failures, and there are none on course.
  | refusedClosed hphase hclosed => exact (hcourse.undisturbed.no_closed hclosed).elim
  | collectedError hphase hmailbox => exact (hcourse.no_error hphase hmailbox).elim
  | abandoned hphase hmailbox hnobody => exact (hcourse.no_abandon hphase hmailbox hnobody).elim
  | counted hphase =>
    rw [hphase] at h
    exact h.elim
  | expired hphase => exact absurd hsmooth Bool.false_ne_true
  | retired hphase => exact absurd hsmooth Bool.false_ne_true

/-- Where `Uncrowded` holds every entry has `roomFor` its next mutation. -/
theorem Uncrowded.room {others : Nat} (h : Uncrowded others g p.phase)
    (hcourse : OnCourse start g p) (hstep : g.step a = some g') (e : Entry) :
    g.roomFor e a = true := by
  unfold roomFor
  split
  · refine decide_eq_true fun _ => ?_
    obtain ⟨e', m, rest, pending, dropped, hphase⟩ :=
      inserting_of_insert (passMove_of_step hcourse.undisturbed.pass hstep)
    exact h.lt_capacity hcourse hphase
  · rfl

/-- `Uncrowded` is kept by whatever `smooth` act comes next. -/
theorem Uncrowded.step {others : Nat} (h : Uncrowded others g p.phase)
    (hcourse : OnCourse start g p) (hsmooth : g.smooth a = true)
    (hfits : ∀ e ms, start.entries.get? e.id = some e →
      start.registry.decode e.version e.payload = .ok ms →
      others + ms.length ≤ start.pool.capacity)
    (hstep : g.step a = some g') (hpass : g'.pass = some p') : Uncrowded others g' p'.phase := by
  rcases hcourse.undisturbed.cases (within_of_smooth hsmooth) hstep hpass with
    ⟨rfl, hbeside⟩ | ⟨act, rfl, -, hmove⟩
  · exact h.beside hbeside
  · exact h.move hcourse hsmooth hfits hmove hpass

/-- **What fits in finds room:** if the mutations of each stored entry fit into the queue beside
    what waits there, the run keeps `roomFor` every entry. -/
theorem runsWith_roomFor (hcourse : OnCourse start g p) (hphase : p.phase = .between)
    (hpool : g.pool = start.pool) (hsmooth : g.RunsWith smooth acts)
    (hfits : ∀ e ms, start.entries.get? e.id = some e →
      start.registry.decode e.version e.payload = .ok ms →
      start.pool.queue.length + ms.length ≤ start.pool.capacity) (e : Entry) :
    g.RunsWith (roomFor e) acts := by
  have huncrowded : Uncrowded start.pool.queue.length g p.phase := by
    rw [hphase, ← hpool]
    exact Nat.le_refl _
  refine RunsWith.imp (I := fun g =>
      ∃ p, OnCourse start g p ∧ Uncrowded start.pool.queue.length g p.phase)
    ?_ ?_ ⟨p, hcourse, huncrowded⟩ hsmooth
  · rintro g g' a ⟨p, hcourse, h⟩ hsmooth hstep
    obtain ⟨p', hcourse'⟩ := hcourse.step hsmooth hstep
    exact ⟨p', hcourse', h.step hcourse hsmooth hfits hstep hcourse'.undisturbed.pass⟩
  · rintro g g' a ⟨p, hcourse, h⟩ - hstep
    exact h.room hcourse hstep e

/-! ### Passes -/

/-- Settings with `validate = ok` ask for a worker. -/
theorem workers_pos {settings : Settings} (h : settings.validate = .ok ()) :
    0 < settings.workers.toNat := by
  unfold Settings.validate at h
  split at h
  · simp at h
  · split at h
    · simp at h
    · split at h
      · simp at h
      · rename_i hworkers
        exact Nat.pos_of_ne_zero fun hzero => hworkers (UInt64.toNat_inj.1 hzero)

/-- **What a pass deletes.**  In a journal that was opened with valid settings, over a store that
    was opened on any medium, and that has done whatever it has done: let a pass begin while the
    pool is open, and let the acts be `smooth`.  An entry that is stored then, that decodes and is
    old enough when its turn comes is gone when the pass is over, unless the pass was cancelled or
    broke down, if the run keeps `roomFor` its mutations.  It does, if the mutations of each stored
    entry fit in beside the jobs that wait at the beginning.  And until the pass is over, it or a
    worker can get on, which they do no more often than what was stored and what waited in the pool
    at the beginning allow. -/
theorem gone_of_pass {settings : Settings} {registry : Registry} {store : Store}
    {path : W.State} {strays : List Delivery} {medium left : Medium} {directory : String}
    {options : StoreOptions} {warnings : List Warning}
    (hstore : medium.openWith directory options = (.ok (store, warnings), left))
    {fresh : Journal W} (hfresh : overStore settings registry store path strays = .ok fresh)
    {past acts : List (Act W)} {g g₁ g' : Journal W} {ticket : Nat}
    (hpast : fresh.run past = some g) (hopen : g.pool.closed = false)
    (hbegin : g.step (.pass (.begin ticket)) = some g₁)
    (hrun : g₁.run acts = some g') (hsmooth : g₁.RunsWith smooth acts)
    {e : Entry} {ms : List Mutation} (hstored : g.entries.get? e.id = some e)
    (hdecode : g.registry.decode e.version e.payload = .ok ms)
    (hage : g₁.RunsWith (oldEnough e) acts)
    (hdeletion : g₁.RunsWith (deletable e) acts)
    (hroom : g₁.RunsWith (roomFor e) acts
      ∨ ∀ e ms, g.entries.get? e.id = some e → g.registry.decode e.version e.payload = .ok ms →
        g.pool.queue.length + ms.length ≤ settings.queueDepth.toNat) :
    ∃ p, g'.pass = some p
      ∧ (∀ report, p.phase = .finished (.ok report) → report.cancelled = false →
        g'.entries.get? e.id = none)
      ∧ (Nonempty W.Choice → (∀ result, p.phase ≠ .finished result) →
        ∃ a g'', Act.serves a = true ∧ g'.step a = some g'')
      ∧ acts.countP Act.serves ≤ g₁.effort := by
  obtain ⟨hvalid, rfl⟩ := overStore_eq_ok hfresh
  have hstaffed := staffed_of_run (staffed_opened _ _ _ _ _) hpast
  have hsound := sound_of_run (Store.sound_of_openWith hstore) hpast
  have htracked := tracked_of_run rfl (fun q => Pool.tally_start _ _) hpast
  obtain ⟨p₁, hcourse, hphase, hscan⟩ := OnCourse.begin hbegin hopen hsound htracked.bounded
  obtain ⟨-, number, throttle, hg₁⟩ := begin_cases hbegin
  have hpool : g₁.pool = g.pool := by rw [hg₁]
  have hroom : g₁.RunsWith (roomFor e) acts := by
    rcases hroom with hroom | hfits
    · exact hroom
    · refine runsWith_roomFor hcourse hphase hpool hsmooth ?_ e
      rw [hstaffed.pool.room]
      exact hfits
  -- In the beginning the scan has everything before it that is stored.
  have hdue : Due e g₁ p₁ := .inl (by rw [hscan]; exact Entries.mem_ids_of_get? hstored)
  have hwork : g₁.AtWork p₁.phase := by
    rw [hphase]
    trivial
  have hstaffed₁ := hstaffed.step hbegin
  have hpos := workers_pos hvalid
  obtain ⟨p, hcourse', hdue', hwork', -⟩ : ∃ p, OnCourse g g' p ∧ Due e g' p ∧ g'.AtWork p.phase
      ∧ g'.Staffed settings := by
    refine RunsWith.keep (I := fun g' =>
      ∃ p, OnCourse g g' p ∧ Due e g' p ∧ g'.AtWork p.phase ∧ g'.Staffed settings)
      ?_ ⟨p₁, hcourse, hdue, hwork, hstaffed₁⟩
      (hsmooth.and (hage.and (hroom.and hdeletion))) hrun
    rintro g₁ g₂ a ⟨p, hcourse, hdue, hwork, hstaffed⟩ hall hstep
    simp only [Bool.and_eq_true] at hall
    obtain ⟨hsmooth, hage, hroom, hdeletion⟩ := hall
    obtain ⟨p', hcourse'⟩ := hcourse.step hsmooth hstep
    have hpass := hcourse'.undisturbed.pass
    have hwithin := within_of_smooth hsmooth
    exact ⟨p', hcourse',
      hdue.step hcourse.undisturbed (fun _ => hcourse.succeeding) hstored hdecode hwithin
        (patient_of_smooth hsmooth) hage hroom hdeletion hstep hpass,
      hwork.step hcourse.undisturbed hstaffed hpos hwithin hstep hpass, hstaffed.step hstep⟩
  have hserved := hcourse.undisturbed.countP_serves_le
    (hsmooth.imp (I := fun _ => True) (fun _ _ _ => trivial) (fun _ ha _ => within_of_smooth ha)
      trivial) hrun
  refine ⟨p, hcourse'.undisturbed.pass, fun report hfinished huncancelled => ?_,
    fun hchoice hunfinished => ?_, by omega⟩
  · have hids := hcourse'.succeeding
    rw [hfinished] at hids
    exact hdue'.gone hfinished huncancelled (hids huncancelled)
  · obtain ⟨choice⟩ := hchoice
    rcases hcourse'.advances hwork' choice with ⟨result, hfinished⟩ | hadvances
    · exact absurd hfinished (hunfinished result)
    · exact hadvances

/-- An entry of one mutation, where the queue takes one. -/
theorem gone_of_pass_single :
    ∃ past acts g g₁ g' p report,
      (holding 1 1 ⟨default, ⟨5⟩, ⟨0⟩, [1]⟩).run past = some g
        ∧ g.entries.get? default = some ⟨default, ⟨5⟩, ⟨0⟩, [1]⟩
        ∧ g.step (.pass (.begin 0)) = some g₁ ∧ g₁.run acts = some g' ∧ g'.pass = some p
        ∧ p.phase = .finished (.ok report) ∧ report.cancelled = false
        ∧ g'.entries.get? default = none := by
  have hstore : (Medium.memory (Entries.empty.put ⟨default, ⟨5⟩, ⟨0⟩, [1]⟩)).openWith ""
      ⟨.always, .zero, 0, default⟩ = (.ok (.memory _, []), .memory _) := rfl
  have hfresh : @overStore replicaPath
      { Settings.standard with replayTimeout := 0, throttleKib := 0, workers := 1, queueDepth := 1 }
      (.single (.counting ⟨0⟩)) (.memory _) Replica.empty []
      = .ok (holding 1 1 ⟨default, ⟨5⟩, ⟨0⟩, [1]⟩) := rfl
  -- The one stored entry decodes to one mutation, which is what the depth of 1 holds.
  have hfits : ∀ (e : Entry) (ms : List Mutation),
      (Entries.empty.put ⟨default, ⟨5⟩, ⟨0⟩, [1]⟩).get? e.id = some e →
      (Registry.single (.counting ⟨0⟩)).decode e.version e.payload = .ok ms → 0 + ms.length ≤ 1 := by
    intro e ms hstored hdecode
    rw [Entries.get?_put] at hstored
    split at hstored
    · obtain rfl := Option.some.inj hstored
      obtain rfl := Except.ok.inj hdecode
      exact Nat.le_refl _
    · simp at hstored
  obtain ⟨p, hpass, hgone, -⟩ := @gone_of_pass _ _ _ _ _ _ _ _ _ _ _ hstore _ hfresh
    [.path (.createTable ⟨"toy", "t"⟩), .control (.board none)]
    [.pass .fetch, .pass (.consider ⟨5⟩), .pass .sort, .pass .sort, .pass .offer, .pass .insert,
      .pass (.rouse none), .pass .offer, .worker (.proceed 0), .worker (.apply 0 none),
      .worker (.report 0), .pass .collect, .pass (.delete none), .pass .fetch]
    _ _ _ 0 rfl rfl rfl rfl (by decide +kernel) ⟨default, ⟨5⟩, ⟨0⟩, [1]⟩ _ rfl rfl
    (by decide +kernel) (by decide +kernel) (.inr hfits)
  obtain rfl := Option.some.inj hpass
  exact ⟨[.path (.createTable ⟨"toy", "t"⟩), .control (.board none)],
    [.pass .fetch, .pass (.consider ⟨5⟩), .pass .sort, .pass .sort, .pass .offer, .pass .insert,
      .pass (.rouse none), .pass .offer, .worker (.proceed 0), .worker (.apply 0 none),
      .worker (.report 0), .pass .collect, .pass (.delete none), .pass .fetch],
    _, _, _, _, _, rfl, rfl, rfl, rfl, rfl, rfl, rfl, hgone _ rfl rfl⟩

/-- **A pass spares an entry** that is stored, decodes and is old enough, although the pool is open,
    every act is `smooth` and the pass comes to its end without being cancelled. -/
def Spares (fresh : Journal W) (past acts : List (Act W)) (e : Entry) : Prop :=
  fresh.settings.validate = .ok ()
    ∧ ∃ g g₁ g' p report ms,
      fresh.run past = some g ∧ g.pool.closed = false ∧ g.entries.get? e.id = some e
        ∧ g.registry.decode e.version e.payload = .ok ms
        ∧ g.step (.pass (.begin 0)) = some g₁ ∧ g₁.run acts = some g'
        ∧ g₁.RunsWith smooth acts ∧ g₁.RunsWith (oldEnough e) acts
        ∧ g'.pass = some p ∧ p.phase = .finished (.ok report) ∧ report.cancelled = false
        ∧ g'.entries.get? e.id = some e

/-- An entry of two mutations is refused where the queue takes one and the worker is late; and an
    entry without mutations is kept if the store fails to delete it. -/
theorem spared_for_size :
    (holding 1 1 ⟨default, ⟨5⟩, ⟨0⟩, [2]⟩).Spares
        [.path (.createTable ⟨"toy", "t"⟩), .control (.board none)]
        [.pass .fetch, .pass (.consider ⟨5⟩), .pass .sort, .pass .sort, .pass .sort, .pass .offer,
          .pass .insert, .pass (.rouse none), .pass .offer, .pass .insert, .worker (.proceed 0),
          .worker (.apply 0 none), .worker (.report 0), .pass .countFailure, .pass .fetch]
        ⟨default, ⟨5⟩, ⟨0⟩, [2]⟩
      ∧ (holding 1 1 ⟨default, ⟨5⟩, ⟨0⟩, [0]⟩).Spares [.control (.board none)]
        [.pass .fetch, .pass (.consider ⟨5⟩), .pass .sort, .pass .offer,
          .pass (.delete (some (.unavailable "disk"))), .pass .fetch]
        ⟨default, ⟨5⟩, ⟨0⟩, [0]⟩ :=
  ⟨⟨rfl, _, _, _, _, _, _, rfl, rfl, rfl, rfl, rfl, rfl, by decide +kernel, by decide +kernel, rfl,
      rfl, rfl, rfl⟩,
    ⟨rfl, _, _, _, _, _, _, rfl, rfl, rfl, rfl, rfl, rfl, by decide +kernel, by decide +kernel, rfl,
      rfl, rfl, rfl⟩⟩

end Journal

end BatchJournal
