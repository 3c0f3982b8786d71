import BatchJournal.Proofs.Replay.Deletion

namespace BatchJournal

/-!
# One entry among others

A pass makes its attempts one after another over one queue, and an attempt that fails leaves in the
queue what no worker has taken yet.  Answers for it go nowhere, so an entry whose mutations the
write path takes meets no error of another entry, whichever fail and in whatever order workers and
pass act.  What is left behind takes up room, though: the queue may be full for the next entry,
which then fails for no fault of its own.

* `Journal.takes` — the write path takes what it is asked for, for one entry.
* `Journal.OnCourseFor` — no attempt on one entry has failed, whatever became of the others.
* `Journal.Fits` — the mutations of one entry fit into the queue beside what waits there.
* `Journal.Roomy` — all mutations that are still to come fit into the queue.
* `Journal.gone_among_others` — what a pass deletes although other entries fail.
* `Journal.crowded_out` — an entry may be refused for what a failing one left in the queue.
-/

/-- The task asks the write path for one of `ms`, at `e.written`. -/
def Task.asksFor (e : Entry) (ms : List Mutation) : Task → Bool
  | .waiting d => d.mutation ∈ ms ∧ d.written = e.written
  | .answered _ _ => false

/-- What attempt `n` on `e` asks for is one of `ms`, as its `Account` tells. -/
theorem Account.asksFor {pool : Pool Task} {mailbox : List (Except WriteError Unit)} {n : Nat}
    {e : Entry} {ms settled rest : List Mutation} {pending : Nat}
    (h : Account pool mailbox n e ms settled rest pending) {d : Delivery}
    (hpresent : 0 < pool.tally (Task.waitsFor d)) (hn : d.attempt = n) :
    Task.asksFor e ms (.waiting d) = true := by
  have hwritten := h.written_eq hpresent hn
  have hd : d = ⟨n, d.mutation, e.written⟩ := by rw [← hn, ← hwritten]
  have hcovered := h.covered d.mutation
  rw [← hd] at hcovered
  exact decide_eq_true ⟨List.count_pos_iff.1 (by omega), hwritten⟩

namespace Phase

theorem exists_held_of_pending {phase : Phase} {pending : Nat} (h : phase.pending? = some pending) :
    ∃ e, phase.held? = some e := by
  cases phase <;> first | exact ⟨_, rfl⟩ | simp [pending?] at h

/-- The entry in hand, with the number of its mutations that are still to be put into the queue. -/
def ahead? : Phase → Option (Entry × Nat)
  | .pacing e ms | .resting e ms => some (e, ms.length)
  | .sorting e rest live _ => some (e, rest.length + live.length)
  | .offering e rest _ _ | .rousing e rest _ _ => some (e, rest.length)
  | .inserting e _ rest _ _ => some (e, rest.length + 1)
  | .between | .fetched _ | .collecting _ _ _ | .deleting _ _ | .failed _ _ | .finished _ => none

end Phase

namespace Journal

variable {W : WritePath} {fresh start g g' : Journal W} {p p' : Pass} {a : Act W}
  {earlier acts : List (Act W)} {e : Entry} {ms : List Mutation}

/-! ### Attempts on one entry -/

/-- **The write path takes** the mutations of `e`, whenever it is asked for one of them. -/
def takes (e : Entry) (ms : List Mutation) (g : Journal W) : Act W → Bool
  | .worker (.apply w choice) => (g.task? w).all fun t => !t.asksFor e ms || g.answersWell choice t
  | _ => true

/-- **On course for an entry:** the pass is `Undisturbed`, and when it has `e` in hand, or none, it
    is `Succeeding`. -/
structure OnCourseFor (e : Entry) (start g : Journal W) (p : Pass) : Prop where
  undisturbed : Undisturbed start g p
  /-- The attempt under way succeeds so far, unless it is one on another entry than `e`. -/
  succeeding : (∀ e', p.phase.held? = some e' → e' = e) → Succeeding g p.scan p.phase

/-- A pass with `pursued? = some e` has no other entry in hand. -/
theorem OnCourseFor.succeeding_of_pursued (h : OnCourseFor e start g p)
    (hpursued : p.phase.pursued? = some e) : Succeeding g p.scan p.phase := by
  refine h.succeeding fun e' he' => ?_
  have hheld : p.phase.held? = some e := by
    revert hpursued
    cases p.phase <;> simp [Phase.pursued?]
  exact Option.some.inj (he'.symm.trans hheld)

/-- Where the phase has `pending?` answers, its attempt has an `Account`. -/
theorem InHand.exists_account {phase : Phase} {pending : Nat}
    (h : InHand fresh earlier g phase) (hpending : phase.pending? = some pending)
    (hheld : phase.held? = some e) :
    ∃ ms settled rest pending, fresh.registry.decode e.version e.payload = .ok ms
      ∧ Account g.pool g.mailbox g.attempts e ms settled rest pending := by
  -- What is owed carries the attempt, and the attempt carries the decoding.
  have howes : ∀ {e' : Entry} {rest : List Mutation} {pending : Nat},
      Owes fresh earlier g e' rest pending → e' = e →
      ∃ ms settled rest pending, fresh.registry.decode e.version e.payload = .ok ms
        ∧ Account g.pool g.mailbox g.attempts e ms settled rest pending := by
    intro e' rest pending howes he'
    subst he'
    obtain ⟨ms, settled, hattempted, haccount⟩ := howes
    obtain ⟨_, _, _, _, -, -, -, -, -, hdecode, -⟩ := hattempted
    exact ⟨ms, settled, rest, pending, hdecode, haccount⟩
  cases phase with
  | offering e' rest pending dropped | rousing e' rest pending dropped
  | inserting e' m rest pending dropped | collecting e' pending dropped | deleting e' dropped =>
    exact howes h (Option.some.inj hheld)
  | between | fetched e' | pacing e' ms | resting e' ms | sorting e' rest live dropped
  | failed e' reason | finished result => simp [Phase.pending?] at hpending

/-- **Workers keep `OnCourseFor e`** if the write path `takes` the mutations of `e`, whatever it
    answers otherwise. -/
theorem OnCourseFor.worker {act : WorkerAct W} (h : OnCourseFor e start g p)
    (htracked : Tracked fresh earlier g)
    (hdecode : fresh.registry.decode e.version e.payload = .ok ms)
    (htakes : g.takes e ms (.worker act) = true) (hstep : g.workerStep act = some g') :
    OnCourseFor e start g' p := by
  refine ⟨h.undisturbed.worker hstep, fun hmine => ?_⟩
  refine (h.succeeding hmine).keep fun pending hpending hwaits => ?_
  refine hwaits.worker (fun {w choice d} hact htask hn => ?_) hstep
  subst hact
  -- What is asked in this attempt is asked for the entry.
  obtain ⟨e', hheld⟩ := Phase.exists_held_of_pending hpending
  obtain rfl := hmine e' hheld
  obtain ⟨ms', settled, rest, pending', hdecode', haccount⟩ :=
    (htracked.inHand p h.undisturbed.pass).exists_account hpending hheld
  obtain rfl := Except.ok.inj (hdecode'.symm.trans hdecode)
  have hpresent : 0 < g.pool.tally (Task.waitsFor d) :=
    tally_pos_of_task? htask (decide_eq_true rfl)
  have hasked := haccount.asksFor hpresent hn
  simpa [takes, htask, hasked, answersWell, applied] using htakes

/-- **A `PassMove` keeps `OnCourseFor e`:** where it turns to `e`, nothing has failed yet. -/
theorem OnCourseFor.move {act : PassAct} (h : OnCourseFor e start g p) (hstay : act ≠ .retire)
    (hmove : g.PassMove p act g') : ∃ p', OnCourseFor e start g' p' := by
  obtain ⟨p', hundisturbed⟩ := h.undisturbed.move hstay hmove
  refine ⟨p', hundisturbed, fun hmine => ?_⟩
  refine Succeeding.move (fun e' hheld hheld' => ?_) h.undisturbed.bounded hmove hundisturbed.pass
  -- The move stays with the entry, so it was in hand before.
  obtain rfl := hmine e' hheld'
  exact h.succeeding fun e'' hheld'' => Option.some.inj (hheld''.symm.trans hheld)

/-- **Every act `within`** keeps `OnCourseFor e`, as long as the write path `takes` the mutations of
    `e`. -/
theorem OnCourseFor.step (h : OnCourseFor e start g p) (htracked : Tracked fresh earlier g)
    (hdecode : fresh.registry.decode e.version e.payload = .ok ms)
    (hwithin : Act.within a = true) (htakes : g.takes e ms a = true)
    (hstep : g.step a = some g') : ∃ p', OnCourseFor e start g' p' := by
  rcases within_cases hwithin hstep with
    ⟨act, rfl, hworker⟩ | ⟨act, p₁, rfl, hstay, hpass, hmove⟩ | ⟨path, control, rfl⟩
  · exact ⟨p, h.worker htracked hdecode htakes hworker⟩
  · obtain rfl := Option.some.inj (hpass.symm.trans h.undisturbed.pass)
    exact h.move hstay hmove
  · have hplaced : Undisturbed start { g with path, control } p :=
      h.undisturbed.place h.undisturbed.pass ⟨rfl, rfl, rfl, rfl⟩ h.undisturbed.held
    refine ⟨p, hplaced, fun hmine => (h.succeeding hmine).keep fun pending _ hwaits => ?_⟩
    exact ⟨hwaits.counted, hwaits.heard, hwaits.spoken⟩

/-! ### Room for one entry -/

/-- **The mutations `ms` fit** into the queue, beside what waits there when the turn of `e`
    comes. -/
def fitsIn (e : Entry) (ms : List Mutation) (g : Journal W) : Act W → Bool
  | .pass (.consider _) =>
    g.inHand? = some e → g.pool.queue.length + ms.length ≤ g.pool.capacity
  | _ => true

/-- **What the pass has `ahead?`** of `e` fits into the queue. -/
def Fits (e : Entry) (g : Journal W) (phase : Phase) : Prop :=
  ∀ n, phase.ahead? = some (e, n) → g.pool.queue.length + n ≤ g.pool.capacity

/-- Where nothing is `ahead?` everything fits. -/
theorem fits_of_ahead_eq_none {phase : Phase} (h : phase.ahead? = none) : Fits e g phase :=
  fun n hahead => absurd (h.symm.trans hahead) (by simp)

/-- At `awaiting` nothing is `ahead?`. -/
theorem ahead?_awaiting {pending dropped : Nat} : (awaiting e pending dropped).ahead? = none := by
  unfold awaiting
  split <;> rfl

/-- **What a pass has ahead after a move:** nothing to be put in; or for the same entry no more than
    before, beside what waits in the queue; or all mutations of an entry that it accepts. -/
inductive AheadAfter (g : Journal W) (p : Pass) (act : PassAct) (g' : Journal W) (p' : Pass) :
    Prop where
  /-- There is nothing `ahead?`. -/
  | nothing (hahead : p'.phase.ahead? = none) (hpool : g'.pool = g.pool)
  /-- What was `ahead?` is less by what was put in. -/
  | less {e : Entry} {n n' : Nat} (hahead : p.phase.ahead? = some (e, n))
      (hahead' : p'.phase.ahead? = some (e, n'))
      (hcapacity : g'.pool.capacity = g.pool.capacity)
      (hle : g'.pool.queue.length + n' ≤ g.pool.queue.length + n)
  /-- The entry `e` is accepted. -/
  | accepted {e : Entry} {ms : List Mutation} {now : Timestamp} (hact : act = .consider now)
      (hphase : p.phase = .fetched e)
      (hdecode : g.registry.decode e.version e.payload = .ok ms)
      (hahead' : p'.phase.ahead? = some (e, ms.length)) (hpool : g'.pool = g.pool)

/-- Every `PassMove` leads to one of these. -/
theorem aheadAfter_of_passMove {act : PassAct} (hmove : g.PassMove p act g')
    (hpass : g'.pass = some p') : g.AheadAfter p act g' p' := by
  have hplace : ∀ {phase : Phase} {e : Entry} {n n' : Nat}, p.phase = phase →
      phase.ahead? = some (e, n) → p'.phase.ahead? = some (e, n') → g'.pool = g.pool → n' ≤ n →
      g.AheadAfter p act g' p' := by
    intro phase e n n' hphase hahead hahead' hpool hle
    exact .less (by rw [hphase]; exact hahead) hahead' (by rw [hpool]) (by rw [hpool]; omega)
  cases hmove with
  | exhausted hphase hscan | skipped hphase hscan | fetched hphase hscan | stopped hphase hstop
  | tooYoung hphase hyoung | undecodable hphase hold herror | wokenToStop hphase hstop
  | refusedClosed hphase hclosed | refusedFull hphase hfull | collectedError hphase hmailbox
  | abandoned hphase hmailbox hnobody | expired hphase | counted hphase | panicked =>
    obtain rfl := Option.some.inj hpass
    exact .nothing rfl rfl
  | deleted hphase hdelete | undeleted hphase hdelete =>
    obtain ⟨store, rfl⟩ := exists_store_of_onStore hdelete
    obtain rfl := Option.some.inj hpass
    exact .nothing rfl rfl
  | offeredAll hphase | collected hphase hmailbox =>
    obtain rfl := Option.some.inj hpass
    exact .nothing ahead?_awaiting rfl
  | accepted hphase hold hok hnext =>
    obtain rfl := Option.some.inj hpass
    rcases hnext with rfl | rfl <;> exact .accepted rfl hphase hok rfl rfl
  | paced hphase hnext =>
    obtain rfl := Option.some.inj hpass
    rcases hnext with rfl | rfl <;> exact hplace hphase rfl rfl rfl (Nat.le_refl _)
  | woken hphase | offered hphase hopen =>
    obtain rfl := Option.some.inj hpass
    exact hplace hphase rfl rfl rfl (Nat.le_refl _)
  | dropped hphase htruncated hlate | kept hphase hkept =>
    obtain rfl := Option.some.inj hpass
    refine hplace hphase rfl rfl rfl ?_
    simp only [List.length_cons, List.length_append, List.length_nil]
    omega
  | attempted hphase =>
    obtain rfl := Option.some.inj hpass
    exact hplace hphase rfl rfl rfl (Nat.le_add_left _ _)
  | inserted hphase hpush =>
    rename_i e' m rest pending dropped pool
    obtain rfl := Option.some.inj hpass
    -- One job more in the queue, and one mutation less to be put in.
    obtain ⟨hqueue, hcapacity, -⟩ := Pool.queue_push hpush
    refine .less (by rw [hphase]; rfl) rfl hcapacity ?_
    show pool.queue.length + rest.length ≤ _
    rw [hqueue, List.length_append, List.length_singleton]
    omega
  | roused hphase hrouse =>
    rename_i e' rest pending dropped worker pool
    obtain rfl := Option.some.inj hpass
    obtain ⟨hqueue, hcapacity, -⟩ := Pool.queue_rouse hrouse
    refine .less (by rw [hphase]; rfl) rfl hcapacity ?_
    show pool.queue.length + rest.length ≤ _
    rw [hqueue]
  | retired hphase => simp at hpass

/-- **A `PassMove` keeps `Fits`:** what it puts in is no longer `ahead?`. -/
theorem Fits.move {act : PassAct} (h : Fits e g p.phase) (hundisturbed : Undisturbed start g p)
    (hdecode : start.registry.decode e.version e.payload = .ok ms)
    (hfits : g.fitsIn e ms (.pass act) = true) (hmove : g.PassMove p act g')
    (hpass : g'.pass = some p') : Fits e g' p'.phase := by
  cases aheadAfter_of_passMove hmove hpass with
  | nothing hahead hpool => exact fits_of_ahead_eq_none hahead
  | less hahead hahead' hcapacity hle =>
    intro n hn
    obtain ⟨rfl, rfl⟩ := Prod.mk.inj (Option.some.inj (hahead'.symm.trans hn))
    have hfit := h _ hahead
    omega
  | accepted hact hphase hok hahead' hpool =>
    intro n hn
    subst hact
    obtain ⟨rfl, rfl⟩ := Prod.mk.inj (Option.some.inj (hahead'.symm.trans hn))
    -- The turn of the entry has come: here it is asked whether it fits.
    have hhand : g.inHand? = some _ := inHand?_of_pursued hundisturbed.pass hphase rfl
    rw [hundisturbed.registry] at hok
    obtain rfl := Except.ok.inj (hdecode.symm.trans hok)
    rw [hpool]
    exact of_decide_eq_true hfits hhand

/-- `Fits` is kept by whatever comes next. -/
theorem Fits.step (h : Fits e g p.phase) (hundisturbed : Undisturbed start g p)
    (hdecode : start.registry.decode e.version e.payload = .ok ms)
    (hwithin : Act.within a = true) (hfits : g.fitsIn e ms a = true) (hstep : g.step a = some g')
    (hpass : g'.pass = some p') : Fits e g' p'.phase := by
  rcases hundisturbed.cases hwithin hstep hpass with ⟨rfl, hbeside⟩ | ⟨act, rfl, -, hmove⟩
  · intro n hahead
    have hqueue := hbeside.pool.queue.length_le
    have hcapacity := hbeside.pool.capacity
    have hfit := h n hahead
    omega
  · exact h.move hundisturbed hdecode hfits hmove hpass

/-- `Fits` gives `roomFor` the entry. -/
theorem Fits.room (h : Fits e g p.phase) (hpass : g.pass = some p) (hstep : g.step a = some g') :
    g.roomFor e a = true := by
  unfold roomFor
  split
  · refine decide_eq_true fun hhand => ?_
    obtain ⟨e', m, rest, pending, dropped, hphase⟩ :=
      inserting_of_insert (passMove_of_step hpass hstep)
    have hhand' : g.inHand? = some e' := inHand?_of_pursued hpass hphase rfl
    obtain rfl := Option.some.inj (hhand'.symm.trans hhand)
    have hfit := h (rest.length + 1) (by rw [hphase]; rfl)
    omega
  · rfl

/-- **What fits when its turn comes finds room:** whatever other entries have left in the queue, it
    only becomes less, so `fitsIn` along a run implies `roomFor` along it. -/
theorem runsWith_roomFor_of_fitsIn (hundisturbed : Undisturbed start g p)
    (hphase : p.phase = .between) (hdecode : start.registry.decode e.version e.payload = .ok ms)
    (hwithin : g.RunsWith (fun _ => Act.within) acts) (hfits : g.RunsWith (fitsIn e ms) acts) :
    g.RunsWith (roomFor e) acts := by
  refine RunsWith.imp (I := fun g => ∃ p, Undisturbed start g p ∧ Fits e g p.phase) ?_ ?_
    ⟨p, hundisturbed, fits_of_ahead_eq_none (by rw [hphase]; rfl)⟩ (hwithin.and hfits)
  · rintro g g' a ⟨p, hundisturbed, h⟩ hact hstep
    obtain ⟨hwithin, hfits⟩ := Bool.and_eq_true_iff.1 hact
    obtain ⟨p', hundisturbed'⟩ := hundisturbed.step hwithin hstep
    exact ⟨p', hundisturbed', h.step hundisturbed hdecode hwithin hfits hstep hundisturbed'.pass⟩
  · rintro g g' a ⟨p, hundisturbed, h⟩ - hstep
    exact h.room hundisturbed.pass hstep

/-! ### Room for all entries -/

/-- A pass that makes a `consider` is at `fetched`. -/
theorem fetched_of_consider {now : Timestamp} (h : g.PassMove p (.consider now) g') :
    ∃ e, p.phase = .fetched e := by
  cases h with
  | stopped hphase hstop => exact ⟨_, hphase⟩
  | tooYoung hphase hyoung => exact ⟨_, hphase⟩
  | undecodable hphase hold herror => exact ⟨_, hphase⟩
  | accepted hphase hold hok hnext => exact ⟨_, hphase⟩

/-- How many mutations are stored under `id`. -/
def weight (g : Journal W) (id : BatchId) : Nat := ((g.entries.get? id).map g.size).getD 0

/-- How many mutations are stored: the sum of `weight` over all ids. -/
def backlog (g : Journal W) : Nat := (g.entries.ids.map g.weight).sum

/-- How many mutations a pass at the given phase has still to put in, for the entry that it has in
    hand. -/
def toPut (g : Journal W) : Phase → Nat
  | .fetched e => g.size e
  | phase => (phase.ahead?.map Prod.snd).getD 0

/-- `toPut` reads `registry` only. -/
theorem toPut_congr (h : g'.registry = g.registry) : g'.toPut = g.toPut := by
  funext phase
  unfold toPut
  rw [size_congr h]

/-- But for an entry that was not looked at, `toPut` is what is ahead. -/
theorem toPut_eq {phase : Phase} (hfetched : ∀ e, phase ≠ .fetched e) :
    g.toPut phase = (phase.ahead?.map Prod.snd).getD 0 := by
  cases phase with
  | fetched e => exact absurd rfl (hfetched e)
  | _ => rfl

theorem toPut_of_ahead {phase : Phase} {n : Nat} (h : phase.ahead? = some (e, n)) :
    g.toPut phase = n := by
  have hfetched : ∀ e', phase ≠ .fetched e' := by
    rintro e' rfl
    simp [Phase.ahead?] at h
  rw [toPut_eq hfetched, h]
  rfl

/-- **Roomy:** all that the pass has `toPut`, and the weight of what it has still to visit, fits
    into the queue, beside what waits there. -/
def Roomy (g : Journal W) (p : Pass) : Prop :=
  g.pool.queue.length + (p.scan.ids.map g.weight).sum + g.toPut p.phase ≤ g.pool.capacity

/-- What is gone, or is stored as before, has no more `weight` than before. -/
theorem weight_le (hregistry : g'.registry = g.registry) {id : BatchId}
    (h : g'.entries.get? id = none ∨ g'.entries.get? id = g.entries.get? id) :
    g'.weight id ≤ g.weight id := by
  rw [weight, weight, size_congr hregistry]
  exact getD_map_get?_le (fun e => Nat.zero_le _) h

/-- With the same scan, `Roomy` depends on `queue` and `toPut`. -/
theorem Roomy.keep (h : g.Roomy p) (hscan : p'.scan = p.scan)
    (hweight : ∀ id, g'.weight id ≤ g.weight id) (hcapacity : g'.pool.capacity = g.pool.capacity)
    (hless : g'.pool.queue.length + g'.toPut p'.phase ≤ g.pool.queue.length + g.toPut p.phase) :
    g'.Roomy p' := by
  have hsum : (p.scan.ids.map g'.weight).sum ≤ (p.scan.ids.map g.weight).sum :=
    List.sum_le_sum fun id _ => hweight id
  unfold Roomy at h ⊢
  rw [hscan, hcapacity]
  omega

/-- **What a pass has `toPut`** becomes less by what it puts in, where it stays with the ids that it
    has left. -/
theorem toPut_of_passMove {act : PassAct} (hmove : g.PassMove p act g') (hpass : g'.pass = some p')
    (hfetched : ∀ e, p'.phase ≠ .fetched e) :
    g'.pool.capacity = g.pool.capacity
      ∧ g'.pool.queue.length + g'.toPut p'.phase ≤ g.pool.queue.length + g.toPut p.phase := by
  rw [toPut_congr (configuration_of_passMove hmove).2]
  cases aheadAfter_of_passMove hmove hpass with
  -- Sorted by what the move does to the jobs ahead: none, fewer, or those of an entry just
  -- accepted.
  | nothing hahead hpool =>
    rw [toPut_eq hfetched, hahead, hpool]
    exact ⟨rfl, Nat.le_add_right _ _⟩
  | less hahead hahead' hcapacity hle =>
    rw [toPut_of_ahead hahead, toPut_of_ahead hahead']
    exact ⟨hcapacity, hle⟩
  | accepted hact hphase hok hahead' hpool =>
    rename_i e ms now
    have hsize : g.toPut p.phase = ms.length := by
      rw [hphase]
      show g.size e = ms.length
      rw [size, hok]
    rw [toPut_of_ahead hahead', hsize, hpool]
    exact ⟨rfl, Nat.le_refl _⟩

/-- What was the `weight` of the next id is now `toPut`, or `0`. -/
theorem Roomy.visit (h : g.Roomy p) {id : BatchId} {scan : Scan} {phase : Phase}
    (hids : p.scan.ids = id :: scan.ids)
    (hfound : g.entries.get? id = none ∧ phase = .between
      ∨ ∃ e, g.entries.get? id = some e ∧ phase = .fetched e) :
    (g.passAt { p with scan } phase).Roomy { p with scan, phase } := by
  have hweight : g.toPut phase ≤ g.weight id := by
    rcases hfound with ⟨-, rfl⟩ | ⟨e, hsome, rfl⟩
    · exact Nat.zero_le _
    · rw [weight, hsome]
      exact Nat.le_refl _
  unfold Roomy at h
  rw [hids, List.map_cons, List.sum_cons] at h
  show g.pool.queue.length + (scan.ids.map g.weight).sum + g.toPut phase ≤ g.pool.capacity
  omega

/-- **A `PassMove` keeps `Roomy`:** each mutation is counted until it is put in. -/
theorem Roomy.move {act : PassAct} (h : g.Roomy p) (hsound : g.store.Sound)
    (hmove : g.PassMove p act g') (hpass : g'.pass = some p') : g'.Roomy p' := by
  rcases scan_of_passMove hmove hpass with
    ⟨hscan, hfetched⟩ | ⟨id, scan, phase, -, hids, rfl, rfl, hfound⟩
  · obtain ⟨hcapacity, hless⟩ := toPut_of_passMove hmove hpass hfetched
    have hregistry := (configuration_of_passMove hmove).2
    exact h.keep hscan (fun id => weight_le hregistry ((get?_of_passMove hsound hmove).2 id))
      hcapacity hless
  · exact h.visit hids hfound

/-- `Roomy` is kept by whatever comes next. -/
theorem Roomy.step (h : g.Roomy p) (hundisturbed : Undisturbed start g p)
    (hwithin : Act.within a = true) (hstep : g.step a = some g') (hpass : g'.pass = some p') :
    g'.Roomy p' := by
  rcases hundisturbed.cases hwithin hstep hpass with ⟨rfl, hbeside⟩ | ⟨act, rfl, -, hmove⟩
  · obtain ⟨-, -, -, hregistry, hstore, hkeeps⟩ := hbeside
    have hqueue := hkeeps.queue.length_le
    refine h.keep rfl (fun id => weight_le hregistry (.inr ?_)) hkeeps.capacity ?_
    · rw [entries, hstore, entries]
    · rw [toPut_congr hregistry]
      omega
  · exact h.move hundisturbed.sound hmove hpass

/-- **Where everything fits in, each entry does:** `Roomy` gives `fitsIn` when its turn comes. -/
theorem runsWith_fitsIn (hundisturbed : Undisturbed start g p) (hroomy : g.Roomy p)
    (hdecode : start.registry.decode e.version e.payload = .ok ms)
    (hwithin : g.RunsWith (fun _ => Act.within) acts) : g.RunsWith (fitsIn e ms) acts := by
  refine RunsWith.imp (I := fun g => ∃ p, Undisturbed start g p ∧ g.Roomy p) ?_ ?_
    ⟨p, hundisturbed, hroomy⟩ hwithin
  · -- `Roomy` is carried along the run, and at each look it leaves the room that `fitsIn` asks for.
    rintro g g' a ⟨p, hundisturbed, h⟩ hact hstep
    obtain ⟨p', hundisturbed'⟩ := hundisturbed.step hact hstep
    exact ⟨p', hundisturbed', h.step hundisturbed hact hstep hundisturbed'.pass⟩
  · rintro g g' a ⟨p, hundisturbed, h⟩ - hstep
    unfold fitsIn
    split
    · refine decide_eq_true fun hhand => ?_
      -- A look is a move of the pass, so the entry looked at is the one in hand.
      obtain ⟨e', hphase⟩ := fetched_of_consider (passMove_of_step hundisturbed.pass hstep)
      have hhand' : g.inHand? = some e' := inHand?_of_pursued hundisturbed.pass hphase rfl
      obtain rfl := Option.some.inj (hhand'.symm.trans hhand)
      -- What is to be put for a fetched entry is the whole of its payload.
      have hput : g.toPut p.phase = ms.length := by
        rw [hphase]
        show g.size e' = ms.length
        rw [size, hundisturbed.registry, hdecode]
      unfold Roomy at h
      omega
    · rfl

/-! ### Passes -/

/-- **There is room** for the entry if its mutations fit in when its turn comes, or if the `backlog`
    fits in when the pass begins. -/
theorem runsWith_roomFor_of_room (hundisturbed : Undisturbed start g p) (hphase : p.phase = .between)
    (hscan : p.scan.ids = g.entries.ids)
    (hdecode : start.registry.decode e.version e.payload = .ok ms)
    (hwithin : g.RunsWith (fun _ => Act.within) acts)
    (hroom : g.RunsWith (roomFor e) acts ∨ g.RunsWith (fitsIn e ms) acts
      ∨ g.pool.queue.length + g.backlog ≤ g.pool.capacity) : g.RunsWith (roomFor e) acts := by
  have hfits : ∀ {acts : List (Act W)}, g.RunsWith (fun _ => Act.within) acts →
      g.RunsWith (fitsIn e ms) acts → g.RunsWith (roomFor e) acts :=
    runsWith_roomFor_of_fitsIn hundisturbed hphase hdecode
  rcases hroom with hroom | hfit | hall
  · exact hroom
  · exact hfits hwithin hfit
  · have hroomy : g.Roomy p := by
      unfold Roomy
      rw [hphase, hscan]
      exact hall
    exact hfits hwithin (runsWith_fitsIn hundisturbed hroomy hdecode hwithin)

/-- **A pass among others:** what is known of a pass that is to delete `e`, whatever becomes of its
    attempts on other entries.  The whole run from `fresh` is carried along, for what is accounted
    of the attempt under way. -/
structure AmongOthers (settings : Settings) (fresh start : Journal W) (e : Entry) (g : Journal W)
    (p : Pass) : Prop where
  /-- `g` is reached from `fresh`. -/
  reached : ∃ earlier, fresh.run earlier = some g
  /-- No attempt on `e` has failed. -/
  course : OnCourseFor e start g p
  /-- `e` is due. -/
  due : Due e g p
  /-- Somebody is at work for what waits in the queue. -/
  atWork : g.AtWork p.phase
  /-- A pass that collects expects an answer. -/
  expectant : Expectant p.phase
  /-- The pool has its workers. -/
  staffed : g.Staffed settings

/-- **Every act keeps it so,** if the write path takes what it is asked for `e`, no deadline passes
    for it, it is old enough, finds room and is deleted when the store is asked to. -/
theorem AmongOthers.step {settings : Settings} (h : AmongOthers settings fresh start e g p)
    (hnew : fresh.pass = none) (hempty : ∀ q, fresh.pool.tally q = 0)
    (hpos : 0 < settings.workers.toNat) (hstored : start.entries.get? e.id = some e)
    (hdecode : start.registry.decode e.version e.payload = .ok ms)
    (hdecode' : fresh.registry.decode e.version e.payload = .ok ms)
    (hwithin : Act.within a = true) (htakes : g.takes e ms a = true)
    (hpatient : g.patient e a = true) (hage : g.oldEnough e a = true) (hroom : g.roomFor e a = true)
    (hdeletion : g.deletable e a = true) (hstep : g.step a = some g') :
    ∃ p', AmongOthers settings fresh start e g' p' := by
  obtain ⟨earlier, hearlier⟩ := h.reached
  have htracked := tracked_of_run hnew hempty hearlier
  obtain ⟨p', hcourse⟩ := h.course.step htracked hdecode' hwithin htakes hstep
  have hundisturbed := h.course.undisturbed
  have hpass := hcourse.undisturbed.pass
  exact ⟨p',
    { reached := ⟨_, run_concat.2 ⟨g, hearlier, hstep⟩⟩
      course := hcourse
      due := h.due.step hundisturbed h.course.succeeding_of_pursued hstored hdecode hwithin hpatient
        hage hroom hdeletion hstep hpass
      atWork := h.atWork.step hundisturbed h.staffed hpos hwithin hstep hpass
      expectant := h.expectant.step hundisturbed hwithin hstep hpass
      staffed := h.staffed.step hstep }⟩

/-- **In the end** the entry is gone, unless the pass was cancelled or broke down. -/
theorem AmongOthers.gone {settings : Settings} (h : AmongOthers settings fresh start e g p)
    {report : Report} (hfinished : p.phase = .finished (.ok report))
    (huncancelled : report.cancelled = false) : g.entries.get? e.id = none := by
  have hids := h.course.succeeding (by rw [hfinished]; simp [Phase.held?])
  rw [hfinished] at hids
  exact h.due.gone hfinished huncancelled (hids huncancelled)

/-- **Until then** an act that `serves` can get the pass on, or the pass gives up an attempt that
    nobody is left to answer. -/
theorem AmongOthers.advances {settings : Settings} (h : AmongOthers settings fresh start e g p)
    (choice : W.Choice) (hunfinished : ∀ result, p.phase ≠ .finished result) :
    ∃ a g', (Act.serves a = true ∨ a = .pass .abandon) ∧ g.step a = some g' := by
  rcases h.course.undisturbed.advances h.atWork h.expectant choice with
    ⟨result, hfinished⟩ | ⟨a, g', hserves, hstep⟩ |
      ⟨e', pending, dropped, hphase, hmailbox, hnobody⟩
  · exact absurd hfinished (hunfinished result)
  · exact ⟨a, g', .inl hserves, hstep⟩
  · refine ⟨.pass .abandon, g.passAt p (.failed e' .unacknowledged), .inr rfl, ?_⟩
    refine Option.bind_eq_some_iff.2 ⟨p, h.course.undisturbed.pass, ?_⟩
    simp only [passStep, hphase, hmailbox, hnobody]
    rfl

/-- **What a pass deletes although other entries fail.** In a journal that was opened with valid
    settings, over a store that was opened on any medium, and that has done whatever it has done:
    let a pass begin while the pool is open, and let nobody but it and the workers use pool and
    store.  Take an entry that is stored then, that decodes and is old enough when its turn comes;
    let the write path take each of its mutations that it is asked for, and let no deadline pass
    for it.  Such an entry is gone when the pass is over, unless the pass was cancelled or broke
    down, if there is room whenever one of its mutations is put into the queue: whichever other
    entries come before it, and whatever becomes of them.  There is room if its mutations fit in
    beside the jobs that wait when its turn comes, so the jobs that a failing entry leaves behind
    are all that can hurt it; and they cannot if all mutations that are stored fit in together when
    the pass begins.  Until it is over, the pass or a worker can get it on, or the pass gives up an
    attempt that nobody is left to answer; so it comes to its end after a bounded number of such
    acts. -/
theorem gone_among_others {settings : Settings} {registry : Registry} {store : Store}
    {path : W.State} {strays : List Delivery} {medium left : Medium} {directory : String}
    {options : StoreOptions} {warnings : List Warning}
    (hstore : medium.openWith directory options = (.ok (store, warnings), left))
    {fresh : Journal W} (hfresh : overStore settings registry store path strays = .ok fresh)
    {past acts : List (Act W)} {g g₁ g' : Journal W} {ticket : Nat}
    (hpast : fresh.run past = some g) (hopen : g.pool.closed = false)
    (hbegin : g.step (.pass (.begin ticket)) = some g₁)
    (hrun : g₁.run acts = some g') (hwithin : g₁.RunsWith (fun _ => Act.within) acts)
    {e : Entry} {ms : List Mutation} (hstored : g.entries.get? e.id = some e)
    (hdecode : g.registry.decode e.version e.payload = .ok ms)
    (htakes : g₁.RunsWith (takes e ms) acts) (hpatient : g₁.RunsWith (patient e) acts)
    (hage : g₁.RunsWith (oldEnough e) acts) (hdeletion : g₁.RunsWith (deletable e) acts)
    (hroom : g₁.RunsWith (roomFor e) acts ∨ g₁.RunsWith (fitsIn e ms) acts
      ∨ g.pool.queue.length + g.backlog ≤ settings.queueDepth.toNat) :
    ∃ p, g'.pass = some p
      ∧ (∀ report, p.phase = .finished (.ok report) → report.cancelled = false →
        g'.entries.get? e.id = none)
      ∧ (Nonempty W.Choice → (∀ result, p.phase ≠ .finished result) →
        ∃ a g'', (Act.serves a = true ∨ a = .pass .abandon) ∧ g'.step a = some g'')
      ∧ acts.countP Act.serves ≤ g₁.effort := by
  obtain ⟨hvalid, rfl⟩ := overStore_eq_ok hfresh
  have hstaffed := staffed_of_run (staffed_opened _ _ _ _ _) hpast
  have hsound := sound_of_run (Store.sound_of_openWith hstore) hpast
  have htracked := tracked_of_run rfl (fun q => Pool.tally_start _ _) hpast
  have hdecode' := htracked.registry ▸ hdecode
  obtain ⟨p₁, hcourse, hphase, hscan⟩ := OnCourse.begin hbegin hopen hsound htracked.bounded
  have hundisturbed := hcourse.undisturbed
  -- Each of the three alternatives of `hroom` gives room at every offer of the entry.
  have hroom : g₁.RunsWith (roomFor e) acts := by
    obtain ⟨-, number, throttle, rfl⟩ := begin_cases hbegin
    rw [← hstaffed.pool.room] at hroom
    exact runsWith_roomFor_of_room hundisturbed hphase (by rw [hscan]; rfl) hdecode hwithin hroom
  -- Nothing is asked of the phase yet: the pass has just begun and the entry is still ahead.
  have hfirst : AmongOthers settings (opened settings registry store path strays) g e g₁ p₁ :=
    { reached := ⟨_, run_concat.2 ⟨g, hpast, hbegin⟩⟩
      course := ⟨hundisturbed, fun _ => hcourse.succeeding⟩
      due := .inl (by rw [hscan]; exact Entries.mem_ids_of_get? hstored)
      atWork := by rw [hphase]; trivial
      expectant := by rw [hphase]; trivial
      staffed := hstaffed.step hbegin }
  obtain ⟨p, hend⟩ : ∃ p, AmongOthers settings (opened settings registry store path strays) g e g' p
      := by
    refine RunsWith.keep (I := fun g' => ∃ p, AmongOthers settings _ g e g' p) ?_ ⟨p₁, hfirst⟩
      (hwithin.and (htakes.and (hpatient.and (hage.and (hroom.and hdeletion))))) hrun
    -- One step of `AmongOthers`, with the six conditions on the act taken apart.
    rintro g₁ g₂ a ⟨p, h⟩ hall hstep
    simp only [Bool.and_eq_true] at hall
    obtain ⟨hwithin, htakes, hpatient, hage, hroom, hdeletion⟩ := hall
    exact h.step rfl (fun q => Pool.tally_start _ _) (workers_pos hvalid) hstored hdecode hdecode'
      hwithin htakes hpatient hage hroom hdeletion hstep
  -- The bound on the serving acts needs no progress, only the effort of the start.
  have hserved := hundisturbed.countP_serves_le hwithin hrun
  refine ⟨p, hend.course.undisturbed.pass, fun report => hend.gone, fun hchoice hunfinished => ?_,
    by omega⟩
  obtain ⟨choice⟩ := hchoice
  exact hend.advances choice hunfinished

/-- A write path that keeps nothing, and takes whatever was not written at `written`. -/
def refusing (written : Timestamp) : WritePath where
  State := Unit
  Choice := Unit
  Event := Empty
  apply _ _ _ at' := (.answered (if at' = written then .error (.other "refused") else .ok ()), ())
  truncatedAt _ _ := none
  occur event _ := nomatch event

/-- A journal of one worker and room for two jobs, with an entry of two mutations stored that the
    write path refuses, and behind it one of `count` mutations that it takes. -/
def mixed (count : UInt8) : Journal (refusing ⟨5⟩) :=
  opened
    { Settings.standard with replayTimeout := 0, throttleKib := 0, workers := 1, queueDepth := 2 }
    (.single (.counting ⟨0⟩))
    (.memory ((Entries.empty.put ⟨default, ⟨5⟩, ⟨0⟩, [2]⟩).put
      ⟨⟨List.replicate 16 1, rfl⟩, ⟨6⟩, ⟨0⟩, [count]⟩)) () []

/-- The second entry has one mutation, and the first has left one in the queue when its turn
    comes. -/
theorem gone_among_others_mixed :
    ∃ acts g g₁ g' p report,
      (mixed 1).run [.control (.board none)] = some g
        ∧ g.entries.get? ⟨List.replicate 16 1, rfl⟩
          = some ⟨⟨List.replicate 16 1, rfl⟩, ⟨6⟩, ⟨0⟩, [1]⟩
        ∧ g.step (.pass (.begin 0)) = some g₁ ∧ g₁.run acts = some g' ∧ g'.pass = some p
        ∧ p.phase = .finished (.ok report) ∧ report.cancelled = false ∧ report.applyFailures = 1
        ∧ g'.entries.get? ⟨List.replicate 16 1, rfl⟩ = none := by
  have hstore : (Medium.memory ((Entries.empty.put ⟨default, ⟨5⟩, ⟨0⟩, [2]⟩).put
      ⟨⟨List.replicate 16 1, rfl⟩, ⟨6⟩, ⟨0⟩, [1]⟩)).openWith ""
      ⟨.always, .zero, 0, default⟩ = (.ok (.memory _, []), .memory _) := rfl
  have hfresh : @overStore (refusing ⟨5⟩)
      { Settings.standard with replayTimeout := 0, throttleKib := 0, workers := 1, queueDepth := 2 }
      (.single (.counting ⟨0⟩)) (.memory _) () [] = .ok (mixed 1) := rfl
  let acts : List (Act (refusing ⟨5⟩)) :=
    [.pass .fetch, .pass (.consider ⟨6⟩), .pass .sort, .pass .sort, .pass .sort, .pass .offer,
      .pass .insert, .pass (.rouse none), .pass .offer, .pass .insert, .pass (.rouse none),
      .pass .offer, .worker (.proceed 0), .worker (.apply 0 ()), .worker (.report 0),
      .pass .collect, .pass .countFailure, .pass .fetch, .pass (.consider ⟨6⟩), .pass .sort,
      .pass .sort, .pass .offer, .pass .insert, .pass (.rouse none), .pass .offer, .worker (.proceed 0),
      .worker (.proceed 0), .worker (.proceed 0), .worker (.proceed 0), .worker (.apply 0 ()),
      .worker (.report 0), .worker (.proceed 0), .worker (.proceed 0), .worker (.proceed 0),
      .worker (.proceed 0), .worker (.apply 0 ()), .worker (.report 0), .pass .collect,
      .pass (.delete none), .pass .fetch]
  -- Each condition on the acts is decidable, so it is evaluated along the run.
  obtain ⟨p, hpass, hgone, -⟩ := @gone_among_others _ _ _ _ _ _ _ _ _ _ _ hstore _ hfresh
    [.control (.board none)] acts _ _ _ 0 rfl rfl rfl rfl (by decide +kernel)
    ⟨⟨List.replicate 16 1, rfl⟩, ⟨6⟩, ⟨0⟩, [1]⟩ _ rfl rfl (by decide +kernel) (by decide +kernel)
    (by decide +kernel) (by decide +kernel) (.inr (.inl (by decide +kernel)))
  obtain rfl := Option.some.inj hpass
  exact ⟨acts, _, _, _, _, _, rfl, rfl, rfl, rfl, rfl, rfl, rfl, rfl, hgone _ rfl rfl⟩

/-- **A pass crowds an entry out** that is stored, decodes, is old enough, and whose mutations the
    write path takes whenever it is asked: it comes to its end without being cancelled, and the
    entry is still stored.  And yet every entry that is stored fits into the queue, which is empty
    in the beginning, the write path answers everything that it is asked, no deadline passes, and
    the store carries out its deletions. -/
def CrowdsOut (fresh : Journal W) (past acts : List (Act W)) (e : Entry) : Prop :=
  fresh.settings.validate = .ok ()
    ∧ (∀ choice s m at', (W.apply choice s m at').1 ≠ .brokeDown)
    ∧ ∃ g g₁ g' p report ms,
      fresh.run past = some g ∧ g.pool.closed = false ∧ g.pool.queue = []
        ∧ g.entries.get? e.id = some e ∧ g.registry.decode e.version e.payload = .ok ms
        ∧ (∀ id e' ms', g.entries.get? id = some e' →
          g.registry.decode e'.version e'.payload = .ok ms' →
          ms'.length ≤ g.settings.queueDepth.toNat)
        ∧ (∀ choice s, ∀ m ∈ ms, (W.apply choice s m e.written).1.isGood = true)
        ∧ g.step (.pass (.begin 0)) = some g₁ ∧ g₁.run acts = some g'
        ∧ g₁.RunsWith (fun _ => Act.within) acts ∧ (∀ elapsed, .pass (.expire elapsed) ∉ acts)
        ∧ g₁.RunsWith (oldEnough e) acts ∧ g₁.RunsWith (deletable e) acts
        ∧ g'.pass = some p ∧ p.phase = .finished (.ok report) ∧ report.cancelled = false
        ∧ g'.entries.get? e.id = some e

/-- The second entry has two mutations: with the one that the first has left behind, the queue is
    full after the first of them. -/
theorem crowded_out :
    (mixed 2).CrowdsOut [.control (.board none)]
      [.pass .fetch, .pass (.consider ⟨6⟩), .pass .sort, .pass .sort, .pass .sort, .pass .offer,
        .pass .insert, .pass (.rouse none), .pass .offer, .pass .insert, .pass (.rouse none),
        .pass .offer, .worker (.proceed 0), .worker (.apply 0 ()), .worker (.report 0),
        .pass .collect, .pass .countFailure, .pass .fetch, .pass (.consider ⟨6⟩), .pass .sort,
        .pass .sort, .pass .sort, .pass .offer, .pass .insert, .pass (.rouse none), .pass .offer,
        .pass .insert, .pass .countFailure, .pass .fetch]
      ⟨⟨List.replicate 16 1, rfl⟩, ⟨6⟩, ⟨0⟩, [2]⟩ := by
  -- The table never breaks down, and both entries hold two mutations, as many as the depth allows.
  have hanswers : ∀ (choice s : Unit) (m : Mutation) (at' : Timestamp),
      ((refusing ⟨5⟩).apply choice s m at').1 ≠ .brokeDown := by
    intro choice s m at'
    simp [refusing]
  have hfits : ∀ (id : BatchId) (e : Entry) (ms : List Mutation),
      ((Entries.empty.put ⟨default, ⟨5⟩, ⟨0⟩, [2]⟩).put
        ⟨⟨List.replicate 16 1, rfl⟩, ⟨6⟩, ⟨0⟩, [2]⟩).get? id = some e →
      (Registry.single (.counting ⟨0⟩)).decode e.version e.payload = .ok ms → ms.length ≤ 2 := by
    intro id e ms hstored hdecode
    rw [Entries.get?_put, Entries.get?_put] at hstored
    split at hstored
    · obtain rfl := Option.some.inj hstored
      obtain rfl := Except.ok.inj hdecode
      exact Nat.le_refl _
    · split at hstored
      · obtain rfl := Option.some.inj hstored
        obtain rfl := Except.ok.inj hdecode
        exact Nat.le_refl _
      · simp at hstored
  exact ⟨rfl, hanswers, _, _, _, _, _, _, rfl, rfl, rfl, rfl, rfl, hfits, fun _ _ _ _ => rfl, rfl,
    rfl, by decide +kernel, by simp, by decide +kernel, by decide +kernel, rfl, rfl, rfl, rfl⟩

end Journal

end BatchJournal
