import BatchJournal.Proofs.Replay.Delivery

namespace BatchJournal

/-!
# A pass that is on course

A pass is *on course* as long as the write path answers every delivery well, no deadline passes, and
nobody but the pass and the workers uses pool and store.  Such a pass waits for just the answers
that are still to come, and all of them are good; so whatever it has put into the queue it will see
acknowledged, whichever attempts went before.

* `Journal.smooth` — the acts that keep a pass on course.
* `Journal.Waits`, `Journal.Succeeding.move` — the answers that are still to come.
* `Journal.Undisturbed` — nobody else uses pool and store, whatever goes wrong.
* `Journal.OnCourse.begin`, `Journal.OnCourse.step` — a pass begins on course and stays on it.
* `Journal.RunsWith.keep` — what such acts keep, a run of them keeps.
-/

/-- The task carries an error for a delivery of attempt `n`. -/
def Task.refuses (n : Nat) : Task → Bool
  | .answered d (.error _) => d.attempt = n
  | _ => false

theorem Task.belongs_of_refuses {n : Nat} {t : Task} (h : t.refuses n = true) :
    t.belongs n = true := by
  cases t with
  | waiting d => simp [refuses] at h
  | answered d r =>
    cases r with
    | ok u => simp [refuses] at h
    | error err => exact h

/-- The write path took the mutation: it answered `ok`. -/
def Outcome.isGood : Outcome → Bool
  | .answered (.ok ()) => true
  | _ => false

/-- How many mutations are handed to the pool and not acknowledged, in an attempt under way. -/
def Phase.pending? : Phase → Option Nat
  | .offering _ _ pending _ | .rousing _ _ pending _ | .inserting _ _ _ pending _
  | .collecting _ pending _ => some pending
  | .deleting _ _ => some 0
  | _ => none

namespace Journal

variable {W : WritePath}

/-! ### Runs in which nothing goes wrong -/

/-- `P` holds of every act of the run, in the state that the act meets. -/
def RunsWith (P : Journal W → Act W → Bool) (g : Journal W) : List (Act W) → Prop
  | [] => True
  | a :: acts => ∀ g' ∈ g.step a, P g a = true ∧ g'.RunsWith P acts

instance decidableRunsWith (P : Journal W → Act W → Bool) :
    (g : Journal W) → (acts : List (Act W)) → Decidable (g.RunsWith P acts)
  | _, [] => .isTrue trivial
  | g, a :: acts =>
    have (g' : Journal W) := decidableRunsWith P g' acts
    inferInstanceAs (Decidable (∀ g' ∈ g.step a, P g a = true ∧ g'.RunsWith P acts))

/-- The write path answers the task well, if it has still to be asked. -/
def answersWell (g : Journal W) (choice : W.Choice) : Task → Bool
  | .waiting d => (W.apply choice g.path d.mutation d.written).1.isGood
  | .answered _ _ => true

/-- **Nothing goes wrong** while one pass is under way and nobody but it and the workers uses pool
    and store: the write path `answersWell`, and no deadline passes. -/
def smooth (g : Journal W) : Act W → Bool
  | .worker (.apply w choice) => (g.task? w).all (g.answersWell choice)
  | .pass (.begin _) | .pass (.expire _) | .pass .retire => false
  | .worker _ | .pass _ | .path _ | .control _ => true
  | .client _ | .closePool | .clearPool | .restart _ _ => false

/-- **Nobody else:** the act is one of the workers or of the pass under way, or leaves pool and
    store alone. -/
def Act.within : Act W → Bool
  | .pass (.begin _) | .pass .retire => false
  | .worker _ | .pass _ | .path _ | .control _ => true
  | .client _ | .closePool | .clearPool | .restart _ _ => false

variable {start g g' : Journal W} {p p' : Pass} {a : Act W} {acts : List (Act W)} {e : Entry}

theorem within_of_smooth (h : g.smooth a = true) : Act.within a = true := by
  cases a with
  | pass act =>
    cases act with
    | begin ticket | expire elapsed | retire => exact absurd h Bool.false_ne_true
    | _ => rfl
  | client act | closePool | clearPool | restart directory ending =>
    exact absurd h Bool.false_ne_true
  | worker act | path event | control move => rfl

/-! ### On course -/

/-- **The pass waits for `pending` answers:** one for each task of the attempt and for each answer
    in the mailbox, and all answers given so far are good. -/
structure Waits (g : Journal W) (pending : Nat) : Prop where
  /-- Tasks and answers add up to `pending`. -/
  counted : g.pool.tally (Task.belongs g.attempts) + g.mailbox.length = pending
  /-- The mailbox has good answers only. -/
  heard : ∀ r ∈ g.mailbox, r = .ok ()
  /-- No task `refuses`: none is going to report an error. -/
  spoken : g.pool.tally (Task.refuses g.attempts) = 0

/-- What is to be known of a pass in a given phase when nothing has failed.  Once it is over, and
    was not cancelled, nothing is left to visit. -/
def Succeeding (g : Journal W) (scan : Scan) : Phase → Prop
  | .offering _ _ pending _ | .rousing _ _ pending _ | .inserting _ _ _ pending _ => Waits g pending
  | .collecting _ pending _ => Waits g pending ∧ 0 < pending
  | .deleting _ _ => Waits g 0
  | .finished (.ok report) => report.cancelled = false → scan.ids = []
  | .between | .fetched _ | .pacing _ _ | .resting _ _ | .sorting _ _ _ _ | .failed _ _
  | .finished (.error _) => True

/-- **Undisturbed:** nobody but a pass that began over `start` and the workers has used pool and
    store since, whatever has become of its attempts. -/
structure Undisturbed (start g : Journal W) (p : Pass) : Prop where
  /-- The pass is under way. -/
  pass : g.pass = some p
  /-- The formats are the same. -/
  registry : g.registry = start.registry
  /-- The pool is open and has the same room. -/
  room : g.pool.closed = false ∧ g.pool.capacity = start.pool.capacity
  /-- The store is sound. -/
  sound : g.store.Sound
  /-- Nothing was stored since. -/
  stored : ∀ id e, g.entries.get? id = some e → start.entries.get? id = some e
  /-- The entry in hand was stored. -/
  held : ∀ e, p.phase.held? = some e → start.entries.get? e.id = some e
  /-- No task belongs to a later attempt. -/
  bounded : ∀ n, g.attempts < n → g.pool.tally (Task.belongs n) = 0

/-- **On course:** a pass that is `Undisturbed` and has met no failure. -/
structure OnCourse (start g : Journal W) (p : Pass) : Prop where
  /-- Nobody else has used pool and store. -/
  undisturbed : Undisturbed start g p
  /-- The attempt under way succeeds so far. -/
  succeeding : Succeeding g p.scan p.phase

/-- Somebody who keeps `Waits` keeps `Succeeding`. -/
theorem Succeeding.keep {scan : Scan} {phase : Phase} (h : Succeeding g scan phase)
    (hwaits : ∀ pending, phase.pending? = some pending → Waits g pending → Waits g' pending) :
    Succeeding g' scan phase := by
  cases phase with
  | offering e rest pending dropped | rousing e rest pending dropped
  | inserting e m rest pending dropped => exact hwaits _ rfl h
  | collecting e pending dropped => exact ⟨hwaits _ rfl h.1, h.2⟩
  | deleting e dropped => exact hwaits _ rfl h
  | finished result =>
    cases result with
    | ok report => exact h
    | error err => trivial
  | between | fetched e | pacing e ms | resting e ms | sorting e rest live dropped
  | failed e reason => trivial

/-- At `awaiting` the pass `Waits` for `pending` answers, or has them all. -/
theorem succeeding_awaiting {scan : Scan} {pending dropped : Nat} (h : Waits g pending) :
    Succeeding g scan (awaiting e pending dropped) := by
  unfold awaiting
  split
  · rename_i hnone
    rw [hnone] at h
    exact h
  · exact ⟨h, by omega⟩

/-- A `smooth` act of a worker has the write path take what it is asked for. -/
theorem isGood_of_smooth {w : Nat} {choice : W.Choice} {d : Delivery}
    (hsmooth : g.smooth (.worker (.apply w choice)) = true)
    (htask : g.task? w = some (.waiting d)) : (g.applied choice d).1.isGood = true := by
  simpa [smooth, htask, answersWell, applied] using hsmooth

/-- The `task?` of a worker counts in the `tally` of the pool. -/
theorem tally_pos_of_task? {w : Nat} {t : Task} (htask : g.task? w = some t) {q : Task → Bool}
    (hq : q t = true) : 0 < g.pool.tally q := by
  obtain ⟨worker, hworker, hrunning⟩ := exists_worker_of_task? htask
  have hinside : 0 < g.pool.workers.countP fun w => w.running?.any q := by
    refine List.countP_pos_iff.2 ⟨worker, List.mem_of_getElem? hworker, ?_⟩
    rw [hrunning]
    exact hq
  rw [Pool.tally]
  omega

/-- `Waits` reads the mailbox and counts the tasks of the latest attempt. -/
theorem Waits.of_tally {pending : Nat} (h : Waits g pending)
    (hrest : g'.attempts = g.attempts ∧ g'.mailbox = g.mailbox)
    (hbelongs : g'.pool.tally (Task.belongs g.attempts) = g.pool.tally (Task.belongs g.attempts))
    (hrefuses : g'.pool.tally (Task.refuses g.attempts) ≤ g.pool.tally (Task.refuses g.attempts)) :
    Waits g' pending := by
  obtain ⟨hattempts, hmailbox⟩ := hrest
  refine ⟨?_, ?_, ?_⟩
  · rw [hattempts, hmailbox, hbelongs]
    exact h.counted
  · rw [hmailbox]
    exact h.heard
  · rw [hattempts]
    exact Nat.eq_zero_of_le_zero (h.spoken ▸ hrefuses)

/-- **An answer of the attempt arrives:** one task less, and one answer more.  An error would have
    been counted by `Task.refuses`. -/
theorem Waits.hear {pending : Nat} {d : Delivery} {r : Except WriteError Unit}
    (h : Waits g pending) (hown : d.attempt = g.attempts) (hattempts : g'.attempts = g.attempts)
    (hmailbox : g'.mailbox = g.mailbox ++ [r])
    (htally : ∀ q, g'.pool.tally q + (if q (.answered d r) then 1 else 0) = g.pool.tally q) :
    Waits g' pending := by
  have hcounted := h.counted
  have hbelongs := htally (Task.belongs g.attempts)
  have hrefuses := htally (Task.refuses g.attempts)
  rw [h.spoken] at hrefuses
  -- A refusal would be one more job that refuses, of which there are none.
  have hgood : r = .ok () := by
    cases r with
    | ok u => rfl
    | error err =>
      rw [if_pos (show Task.refuses g.attempts (.answered d (.error err)) = true from
        decide_eq_true hown)] at hrefuses
      omega
  rw [if_pos (show Task.belongs g.attempts (.answered d r) = true from decide_eq_true hown)]
    at hbelongs
  refine ⟨?_, ?_, ?_⟩
  · rw [hattempts, hmailbox, List.length_append, List.length_singleton]
    omega
  · intro r' hr'
    rw [hmailbox] at hr'
    rcases List.mem_append.1 hr' with hr' | hr'
    · exact h.heard r' hr'
    · rw [List.mem_singleton.1 hr']
      exact hgood
  · rw [hattempts]
    omega

/-- **Workers keep `Waits`,** as long as the write path takes what belongs to the attempt under
    way. -/
theorem Waits.worker {act : WorkerAct W} {pending : Nat} (h : Waits g pending)
    (hgood : ∀ {w choice d}, act = .apply w choice → g.task? w = some (.waiting d) →
      d.attempt = g.attempts → (g.applied choice d).1.isGood = true)
    (hstep : g.workerStep act = some g') : Waits g' pending := by
  -- What the write path does not take belongs to an earlier attempt.
  have hearlier : ∀ {w choice d outcome}, act = .apply w choice → g.task? w = some (.waiting d) →
      (g.applied choice d).1 = outcome → outcome.isGood = false → d.attempt ≠ g.attempts := by
    rintro w choice d outcome hact htask rfl hbad hown
    exact Bool.false_ne_true (hbad.symm.trans (hgood hact htask hown))
  cases workerStep_cases hstep with
  | aside haside htally hidle =>
    exact h.of_tally ⟨haside.attempts, haside.mailbox⟩ (htally _) (Nat.le_of_eq (htally _))
  | answer d r htask hanswer hrest htally =>
    have hbelongs := htally (Task.belongs g.attempts)
    have hrefuses := htally (Task.refuses g.attempts)
    have hkind : Task.refuses g.attempts (.answered d r) = false := by
      cases r with
      | ok u => rfl
      | error err => exact decide_eq_false (hearlier rfl htask hanswer rfl)
    rw [hkind, if_neg Bool.false_ne_true] at hrefuses
    exact h.of_tally ⟨hrest.2.1, hrest.2.2.1⟩ (Nat.add_right_cancel hbelongs)
      (Nat.le.intro hrefuses)
  | breakDown d htask hanswer haside htally =>
    have hbelongs := htally (Task.belongs g.attempts)
    have hother : Task.belongs g.attempts (.waiting d) = false :=
      decide_eq_false (hearlier rfl htask hanswer rfl)
    rw [hother, if_neg Bool.false_ne_true] at hbelongs
    exact h.of_tally ⟨haside.attempts, haside.mailbox⟩ hbelongs (haside.tally_le _)
  | report d r hrest hmailbox htally =>
    by_cases hown : d.attempt = g.attempts
    · exact h.hear hown hrest.2.1 (by rw [hmailbox, if_pos hown]) htally
    · -- The answer is for an earlier attempt and goes nowhere.
      have hbelongs := htally (Task.belongs g.attempts)
      have hother : Task.belongs g.attempts (.answered d r) = false := decide_eq_false hown
      rw [hother, if_neg Bool.false_ne_true] at hbelongs
      exact h.of_tally ⟨hrest.2.1, by rw [hmailbox, if_neg hown]⟩ hbelongs
        (Nat.le.intro (htally _))

/-- Workers add no task to any attempt `n`. -/
theorem belongs_le_of_workerStep {act : WorkerAct W} (hstep : g.workerStep act = some g')
    (n : Nat) : g'.pool.tally (Task.belongs n) ≤ g.pool.tally (Task.belongs n) := by
  cases workerStep_cases hstep with
  | aside haside htally hidle => exact haside.tally_le _
  | answer d r htask hanswer hrest htally =>
    have hn := htally (Task.belongs n)
    have hkind : Task.belongs n (.answered d r) = Task.belongs n (.waiting d) := rfl
    rw [hkind] at hn
    omega
  | breakDown d htask hanswer haside htally => exact haside.tally_le _
  | report d r hrest hmailbox htally => exact Nat.le.intro (htally _)

/-- Workers keep `Undisturbed`. -/
theorem Undisturbed.worker {act : WorkerAct W} (h : Undisturbed start g p)
    (hstep : g.workerStep act = some g') : Undisturbed start g' p := by
  have hbeside := beside_of_workerStep hstep
  exact
    { pass := hbeside.pass.trans h.pass
      registry := hbeside.registry.trans h.registry
      room :=
        ⟨hbeside.pool.closed.trans h.room.1, hbeside.pool.capacity.trans h.room.2⟩
      sound := by rw [hbeside.store]; exact h.sound
      stored := by rw [entries, hbeside.store]; exact h.stored
      held := h.held
      bounded := fun n hn => by
        have hzero := h.bounded n (by rw [← hbeside.attempts]; exact hn)
        have hle := belongs_le_of_workerStep hstep n
        omega }

/-- **Workers keep `OnCourse`** in `smooth` acts. -/
theorem OnCourse.worker {act : WorkerAct W} (h : OnCourse start g p)
    (hsmooth : g.smooth (.worker act) = true) (hstep : g.workerStep act = some g') :
    OnCourse start g' p := by
  refine ⟨h.undisturbed.worker hstep, h.succeeding.keep fun pending _ hwaits => ?_⟩
  refine hwaits.worker (fun hact htask _ => ?_) hstep
  subst hact
  exact isGood_of_smooth hsmooth htask

/-- A pass that goes to another place, with everything around it as before, stays `Undisturbed`. -/
theorem Undisturbed.place (h : Undisturbed start g p) (hpass : g'.pass = some p')
    (hsame : g'.registry = g.registry ∧ g'.store = g.store ∧ g'.attempts = g.attempts
      ∧ g'.pool = g.pool)
    (hheld : ∀ e, p'.phase.held? = some e → start.entries.get? e.id = some e) :
    Undisturbed start g' p' where
  pass := hpass
  registry := hsame.1.trans h.registry
  room := by rw [hsame.2.2.2]; exact h.room
  sound := by rw [hsame.2.1]; exact h.sound
  stored := by rw [entries, hsame.2.1]; exact h.stored
  held := hheld
  bounded := by rw [hsame.2.2.2, hsame.2.2.1]; exact h.bounded

/-- While a task of the latest attempt is in the pool, the attempt is `attended`: somebody is going
    to answer. -/
theorem attended_of_belongs (h : 0 < g.pool.tally (Task.belongs g.attempts)) :
    g.attended = true := by
  simp only [Pool.tally] at h
  simp only [attended, Bool.or_eq_true, List.any_eq_true]
  by_cases hqueue : 0 < g.pool.queue.countP (Task.belongs g.attempts)
  · obtain ⟨t, ht, hbelongs⟩ := List.countP_pos_iff.1 hqueue
    exact .inl ⟨t, ht, hbelongs⟩
  · have hworkers : 0 < g.pool.workers.countP fun w =>
        w.running?.any (Task.belongs g.attempts) := by
      omega
    obtain ⟨w, hw, hbelongs⟩ := List.countP_pos_iff.1 hworkers
    exact .inr ⟨w, hw, hbelongs⟩

/-! ### What does not happen on course -/

/-- An attempt that is `Succeeding` finds no error in the mailbox. -/
theorem Succeeding.no_error {scan : Scan} {pending dropped : Nat} {err : WriteError}
    {mailbox : List (Except WriteError Unit)}
    (h : Succeeding g scan (.collecting e pending dropped))
    (hmailbox : g.mailbox = .error err :: mailbox) : False := by
  have hgood := h.1.heard _ (by rw [hmailbox]; exact List.mem_cons_self)
  simp at hgood

/-- An attempt that is `Succeeding` and finds the mailbox empty is `attended`. -/
theorem Succeeding.no_abandon {scan : Scan} {pending dropped : Nat}
    (h : Succeeding g scan (.collecting e pending dropped)) (hmailbox : g.mailbox = [])
    (hnobody : g.attended = false) : False := by
  obtain ⟨hwaits, hpending⟩ := h
  have hcounted := hwaits.counted
  rw [hmailbox, List.length_nil] at hcounted
  have hsomebody := attended_of_belongs (by omega : 0 < g.pool.tally (Task.belongs g.attempts))
  exact absurd (hsomebody.symm.trans hnobody) (by simp)

/-- So a pass `OnCourse` takes no error. -/
theorem OnCourse.no_error (h : OnCourse start g p) {pending dropped : Nat} {err : WriteError}
    {mailbox : List (Except WriteError Unit)} (hphase : p.phase = .collecting e pending dropped)
    (hmailbox : g.mailbox = .error err :: mailbox) : False := by
  have hsucceeding := h.succeeding
  rw [hphase] at hsucceeding
  exact hsucceeding.no_error hmailbox

/-- Nor does it give an attempt up. -/
theorem OnCourse.no_abandon (h : OnCourse start g p) {pending dropped : Nat}
    (hphase : p.phase = .collecting e pending dropped) (hmailbox : g.mailbox = [])
    (hnobody : g.attended = false) : False := by
  have hsucceeding := h.succeeding
  rw [hphase] at hsucceeding
  exact hsucceeding.no_abandon hmailbox hnobody

/-- An `Undisturbed` pass does not find the pool closed. -/
theorem Undisturbed.no_closed (h : Undisturbed start g p) (hclosed : g.pool.closed = true) :
    False :=
  absurd (h.room.1.symm.trans hclosed) (by simp)

/-! ### Moves of the pass -/

/-- A `delete` leaves nothing under an id, or what was there. -/
theorem get?_of_onStore_delete (hsound : g.store.Sound) (failure : Option StoreError)
    (deleted id : BatchId) :
    (g.onStore failure (.delete deleted)).2.entries.get? id = none
      ∨ (g.onStore failure (.delete deleted)).2.entries.get? id = g.entries.get? id := by
  rcases (entries_onStore hsound failure (.delete deleted)).2 with ⟨-, heffect⟩ | ⟨-, hsame⟩
  · rw [heffect, StoreOp.effect, Entries.get?_delete]
    split
    · exact .inl rfl
    · exact .inr rfl
  · exact .inr (by rw [hsame])

/-- **A `PassMove` leaves the store sound,** and under each id nothing or what was there. -/
theorem get?_of_passMove {act : PassAct} (hsound : g.store.Sound) (hmove : g.PassMove p act g') :
    g'.store.Sound ∧ ∀ id, g'.entries.get? id = none ∨ g'.entries.get? id = g.entries.get? id := by
  rcases store_of_passMove hmove with hsame | ⟨failure, deleted, hdelete⟩
  · rw [entries, hsame]
    exact ⟨hsound, fun id => .inr rfl⟩
  · rw [entries, hdelete]
    exact ⟨(entries_onStore hsound failure _).1, get?_of_onStore_delete hsound failure deleted⟩

/-- **A `PassMove` puts in no job of a later attempt,** and leaves `closed` and `capacity` as they
    are. -/
theorem room_of_passMove {act : PassAct} (hmove : g.PassMove p act g')
    (hbounded : ∀ n, g.attempts < n → g.pool.tally (Task.belongs n) = 0) :
    (g'.pool.closed = g.pool.closed ∧ g'.pool.capacity = g.pool.capacity)
      ∧ ∀ n, g'.attempts < n → g'.pool.tally (Task.belongs n) = 0 := by
  -- Only the insertion of a mutation makes the queue longer, by a job of the attempt under way.
  rcases pool_of_passMove hmove with ⟨hpool, hle⟩ | ⟨hattempts, ⟨m, written, hpush⟩ | ⟨w, hrouse⟩⟩
  · rw [hpool]
    exact ⟨⟨rfl, rfl⟩, fun n hn => hbounded n (Nat.lt_of_le_of_lt hle hn)⟩
  · obtain ⟨-, hcapacity, hclosed⟩ := Pool.queue_push hpush
    refine ⟨⟨hclosed, hcapacity⟩, fun n hn => ?_⟩
    rw [hattempts] at hn
    have hother : Task.belongs n (.waiting ⟨g.attempts, m, written⟩) = false :=
      decide_eq_false (Nat.ne_of_lt hn)
    rw [Pool.tally_push hpush, hother, hbounded n hn]
    rfl
  · obtain ⟨-, hcapacity, hclosed⟩ := Pool.queue_rouse hrouse
    refine ⟨⟨hclosed, hcapacity⟩, fun n hn => ?_⟩
    rw [hattempts] at hn
    exact (Pool.tally_rouse hrouse).trans (hbounded n hn)

/-- **A `PassMove`** keeps `Undisturbed`. -/
theorem Undisturbed.move {act : PassAct} (h : Undisturbed start g p) (hstay : act ≠ .retire)
    (hmove : g.PassMove p act g') : ∃ p', Undisturbed start g' p' := by
  obtain ⟨p', hpass'⟩ := exists_pass_of_passMove hmove hstay
  obtain ⟨hsound, hget⟩ := get?_of_passMove h.sound hmove
  obtain ⟨⟨hclosed, hcapacity⟩, hbounded⟩ := room_of_passMove hmove h.bounded
  refine ⟨p',
    { pass := hpass'
      registry := (configuration_of_passMove hmove).2.trans h.registry
      room := ⟨hclosed.trans h.room.1, hcapacity.trans h.room.2⟩
      sound := hsound
      stored := fun id e hstored => ?_
      held := fun e hheld => ?_
      bounded := hbounded }⟩
  · rcases hget id with hgone | hsame
    · simp [hgone] at hstored
    · exact h.stored id e (hsame.symm.trans hstored)
  · -- The entry in hand was in hand before, or is what the scan has found just now.
    have hhand : g'.inHand? = some e := by simp [inHand?, hpass', hheld]
    rcases (inHand?_of_passMove h.pass hmove hhand).2 with hbefore | hstored
    · exact h.held e (by simpa [inHand?, h.pass] using hbefore)
    · exact h.stored _ e hstored

/-- **A `PassMove`** keeps `Succeeding` while the pass holds the same entry; and where it turns to
    another entry there is nothing to be kept. -/
theorem Succeeding.move {act : PassAct}
    (h : ∀ e, p.phase.held? = some e → p'.phase.held? = some e → Succeeding g p.scan p.phase)
    (hbounded : ∀ n, g.attempts < n → g.pool.tally (Task.belongs n) = 0)
    (hmove : g.PassMove p act g') (hpass : g'.pass = some p') :
    Succeeding g' p'.scan p'.phase := by
  have hbefore : ∀ {e : Entry} {phase : Phase}, p.phase = phase → phase.held? = some e →
      p'.phase.held? = some e → Succeeding g p.scan phase := by
    intro e phase hphase hheld hheld'
    rw [← hphase]
    exact h e (by rw [hphase]; exact hheld) hheld'
  cases hmove with
  | exhausted hphase hscan =>
    obtain rfl := Option.some.inj hpass
    exact fun _ => Scan.visit_eq_none_iff.1 hscan
  | stopped hphase hstop | wokenToStop hphase hstop =>
    obtain rfl := Option.some.inj hpass
    exact fun hcancelled => absurd hcancelled (by simp)
  | attempted hphase =>
    obtain rfl := Option.some.inj hpass
    -- No task has the number of the new attempt yet.
    have hnone := hbounded (g.attempts + 1) (Nat.lt_succ_self _)
    have hle := @Pool.tally_mono _ g.pool (Task.refuses (g.attempts + 1))
      (Task.belongs (g.attempts + 1)) fun t ht => Task.belongs_of_refuses ht
    exact ⟨hnone, fun r hr => absurd hr List.not_mem_nil, Nat.le_zero.1 (hnone ▸ hle)⟩
  | offeredAll hphase =>
    obtain rfl := Option.some.inj hpass
    have hwaits := hbefore hphase rfl (held?_awaiting _ _ _)
    exact succeeding_awaiting ⟨hwaits.counted, hwaits.heard, hwaits.spoken⟩
  | offered hphase hopen =>
    obtain rfl := Option.some.inj hpass
    have hwaits := hbefore hphase rfl rfl
    exact ⟨hwaits.counted, hwaits.heard, hwaits.spoken⟩
  | inserted hphase hpush =>
    rename_i e m rest pending dropped pool
    obtain rfl := Option.some.inj hpass
    obtain ⟨hcounted, hheard, hspoken⟩ := hbefore hphase rfl rfl
    have hmine : Task.belongs g.attempts (.waiting ⟨g.attempts, m, e.written⟩) = true :=
      decide_eq_true rfl
    refine ⟨?_, hheard, ?_⟩
    · show pool.tally (Task.belongs g.attempts) + g.mailbox.length = pending + 1
      rw [Pool.tally_push hpush, if_pos hmine]
      omega
    · show pool.tally (Task.refuses g.attempts) = 0
      rw [Pool.tally_push hpush, hspoken]
      rfl
  | roused hphase hrouse =>
    rename_i e rest pending dropped worker pool
    obtain rfl := Option.some.inj hpass
    obtain ⟨hcounted, hheard, hspoken⟩ := hbefore hphase rfl rfl
    refine ⟨?_, hheard, (Pool.tally_rouse hrouse).trans hspoken⟩
    show pool.tally (Task.belongs g.attempts) + g.mailbox.length = pending
    rw [Pool.tally_rouse hrouse]
    exact hcounted
  | collected hphase hmailbox =>
    rename_i e pending dropped mailbox
    obtain rfl := Option.some.inj hpass
    obtain ⟨⟨hcounted, hheard, hspoken⟩, -⟩ := hbefore hphase rfl (held?_awaiting _ _ _)
    rw [hmailbox] at hcounted hheard
    rw [List.length_cons] at hcounted
    refine succeeding_awaiting ⟨?_, fun r hr => hheard r (List.mem_cons_of_mem _ hr), hspoken⟩
    show g.pool.tally (Task.belongs g.attempts) + mailbox.length = pending - 1
    omega
  | accepted hphase hage hdecode hplace | paced hphase hplace =>
    obtain rfl := Option.some.inj hpass
    rcases hplace with rfl | rfl <;> trivial
  | retired hphase => simp at hpass
  | skipped hphase hscan | fetched hphase hscan | tooYoung hphase hage
  | undecodable hphase hage hdecode | woken hphase | dropped hphase htruncated hlate
  | kept hphase hkept | refusedClosed hphase hclosed | refusedFull hphase hfull
  | collectedError hphase hmailbox | abandoned hphase hmailbox hnobody | expired hphase
  | deleted hphase hdelete | undeleted hphase hdelete | counted hphase | panicked =>
    obtain rfl := Option.some.inj hpass
    trivial

/-- **A `PassMove`** keeps `OnCourse`. -/
theorem OnCourse.move {act : PassAct} (h : OnCourse start g p) (hstay : act ≠ .retire)
    (hmove : g.PassMove p act g') : ∃ p', OnCourse start g' p' := by
  obtain ⟨p', hundisturbed⟩ := h.undisturbed.move hstay hmove
  exact ⟨p', hundisturbed, Succeeding.move (fun _ _ _ => h.succeeding) h.undisturbed.bounded hmove
    hundisturbed.pass⟩

/-! ### Runs of a pass and the workers -/

/-- **What is `within`** is an act of a worker or a move of the pass, or it leaves everything but
    write path and tickets alone. -/
theorem within_cases (hwithin : Act.within a = true) (hstep : g.step a = some g') :
    (∃ act, a = .worker act ∧ g.workerStep act = some g')
      ∨ (∃ act p, a = .pass act ∧ act ≠ .retire ∧ g.pass = some p ∧ g.PassMove p act g')
      ∨ ∃ path control, g' = { g with path, control } := by
  -- A restart and what clients do are not within the course of a pass.
  cases a with
  | worker act => exact .inl ⟨act, rfl, hstep⟩
  | pass act =>
    rcases pass_cases hstep with ⟨ticket, rfl, -⟩ | ⟨p, hpass, hmove⟩
    · exact absurd hwithin Bool.false_ne_true
    · refine .inr (.inl ⟨act, p, rfl, ?_, hpass, hmove⟩)
      rintro rfl
      exact absurd hwithin Bool.false_ne_true
  | path event => exact .inr (.inr ⟨_, _, (Option.some.inj hstep).symm⟩)
  | control move =>
    obtain ⟨control, rfl⟩ := control_cases hstep
    exact .inr (.inr ⟨_, control, rfl⟩)
  | client act | closePool | clearPool | restart directory ending =>
    exact absurd hwithin Bool.false_ne_true

/-- **Beside the pass or by it:** an act that is `within` leaves the pass where it is, or is its
    `PassMove`. -/
theorem Undisturbed.cases (h : Undisturbed start g p) (hwithin : Act.within a = true)
    (hstep : g.step a = some g') (hpass : g'.pass = some p') :
    p' = p ∧ g.Beside g' ∨ ∃ act, a = .pass act ∧ act ≠ .retire ∧ g.PassMove p act g' := by
  rcases within_cases hwithin hstep with
    ⟨act, rfl, hworker⟩ | ⟨act, p₁, rfl, hstay, hp, hmove⟩ | ⟨path, control, rfl⟩
  · have hbeside := beside_of_workerStep hworker
    exact .inl ⟨Option.some.inj (hpass.symm.trans (hbeside.pass.trans h.pass)), hbeside⟩
  · obtain rfl := Option.some.inj (hp.symm.trans h.pass)
    exact .inr ⟨act, rfl, hstay, hmove⟩
  · exact .inl ⟨Option.some.inj (hpass.symm.trans h.pass), rfl, rfl, rfl, rfl, rfl, .refl _⟩

/-- **Every act `within`** keeps `Undisturbed`. -/
theorem Undisturbed.step (h : Undisturbed start g p) (hwithin : Act.within a = true)
    (hstep : g.step a = some g') : ∃ p', Undisturbed start g' p' := by
  rcases within_cases hwithin hstep with
    ⟨act, rfl, hworker⟩ | ⟨act, p₁, rfl, hstay, hpass, hmove⟩ | ⟨path, control, rfl⟩
  · exact ⟨p, h.worker hworker⟩
  · obtain rfl := Option.some.inj (hpass.symm.trans h.pass)
    exact h.move hstay hmove
  · exact ⟨p, h.place h.pass ⟨rfl, rfl, rfl, rfl⟩ h.held⟩

/-- **Every `smooth` act** keeps `OnCourse`. -/
theorem OnCourse.step (h : OnCourse start g p) (hsmooth : g.smooth a = true)
    (hstep : g.step a = some g') : ∃ p', OnCourse start g' p' := by
  rcases within_cases (within_of_smooth hsmooth) hstep with
    ⟨act, rfl, hworker⟩ | ⟨act, p₁, rfl, hstay, hpass, hmove⟩ | ⟨path, control, rfl⟩
  · exact ⟨p, h.worker hsmooth hworker⟩
  · obtain rfl := Option.some.inj (hpass.symm.trans h.undisturbed.pass)
    exact h.move hstay hmove
  · have hplaced : Undisturbed start { g with path, control } p :=
      h.undisturbed.place h.undisturbed.pass ⟨rfl, rfl, rfl, rfl⟩ h.undisturbed.held
    refine ⟨p, hplaced, h.succeeding.keep fun pending _ hwaits => ?_⟩
    exact ⟨hwaits.counted, hwaits.heard, hwaits.spoken⟩

/-- **A pass that begins** is `OnCourse` if the pool is open. -/
theorem OnCourse.begin {ticket : Nat} (hbegin : start.begin ticket = some g)
    (hopen : start.pool.closed = false) (hsound : start.store.Sound)
    (hbounded : ∀ n, start.attempts < n → start.pool.tally (Task.belongs n) = 0) :
    ∃ p, OnCourse start g p ∧ p.phase = .between ∧ p.scan = start.store.scan := by
  obtain ⟨-, number, throttle, rfl⟩ := begin_cases hbegin
  exact ⟨_,
    { undisturbed :=
        { pass := rfl
          registry := rfl
          room := ⟨hopen, rfl⟩
          sound := hsound
          stored := fun _ _ h => h
          held := by simp [Phase.held?]
          bounded := hbounded }
      succeeding := trivial }, rfl, rfl⟩

/-- **Runs keep** what acts with `P` keep. -/
theorem RunsWith.keep {P : Journal W → Act W → Bool} {I : Journal W → Prop}
    (hkeep : ∀ {g g' a}, I g → P g a = true → g.step a = some g' → I g') (h : I g)
    (hwith : g.RunsWith P acts) (hrun : g.run acts = some g') : I g' := by
  induction acts generalizing g with
  | nil =>
    obtain rfl := Option.some.inj hrun
    exact h
  | cons a acts ih =>
    obtain ⟨g₁, hstep, hrest⟩ := Option.bind_eq_some_iff.1 hrun
    obtain ⟨ha, hwith⟩ := hwith g₁ hstep
    exact ih (hkeep h ha hstep) hwith hrest

/-- What an invariant `I` tells of each act holds along a run that keeps `I`. -/
theorem RunsWith.imp {P Q : Journal W → Act W → Bool} {I : Journal W → Prop}
    (hkeep : ∀ {g g' a}, I g → P g a = true → g.step a = some g' → I g')
    (htell : ∀ {g g' a}, I g → P g a = true → g.step a = some g' → Q g a = true) (h : I g)
    (hwith : g.RunsWith P acts) : g.RunsWith Q acts := by
  induction acts generalizing g with
  | nil => trivial
  | cons a acts ih =>
    intro g₁ hstep
    obtain ⟨ha, hwith⟩ := hwith g₁ hstep
    exact ⟨htell h ha hstep, ih (hkeep h ha hstep) hwith⟩

theorem RunsWith.and {P Q : Journal W → Act W → Bool} (hp : g.RunsWith P acts)
    (hq : g.RunsWith Q acts) : g.RunsWith (fun g a => P g a && Q g a) acts := by
  induction acts generalizing g with
  | nil => trivial
  | cons a acts ih =>
    intro g₁ hstep
    obtain ⟨hpa, hp⟩ := hp g₁ hstep
    obtain ⟨hqa, hq⟩ := hq g₁ hstep
    exact ⟨Bool.and_eq_true_iff.2 ⟨hpa, hqa⟩, ih hp hq⟩

end Journal

end BatchJournal
