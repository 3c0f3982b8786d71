import BatchJournal.Proofs.Journal.PassMoves
import BatchJournal.Proofs.Journal.Steps
import BatchJournal.Proofs.Journal.WrittenOnce
import Mathlib.Data.List.Induction
import Mathlib.Data.List.Perm.Subperm

namespace BatchJournal

/-!
# What is deleted was delivered

A replay attempt sorts out the mutations of truncated tables, hands the others to the pool and waits
until as many answers came in.  Answers come in any order, mixed with those of other attempts, and
some never come; still the attempt ends in a deletion only when each mutation of the entry has met
its own good fate.  The proof keeps an account of the attempt (`Account`): what is settled, what is
still with the workers and what has not been handed to them never exceeds the mutations of the
entry, and there are never more good answers about than settled mutations.

* `Journal.fates` — what the acts of a run do to mutations.
* `Account.answer`, `Account.report`, `Account.insert`, `Account.collect` — each step of an attempt
  keeps its account.
* `Journal.tracked_of_run` — every run keeps the account of the attempt under way.
* `Journal.delivered_of_deleting` — a pass that is about to delete an entry has delivered it.
-/

/-! ### Fates of mutations -/

/-- What becomes of a mutation. -/
inductive Fate where
  /-- The write path has answered the delivery, and that it was carried out. -/
  | applied (delivery : Delivery)
  /-- The pass has seen that the table of the mutation was truncated at `truncated`. -/
  | dropped (mutation : Mutation) (truncated : Timestamp)

/-- The fate that an answer decides: only `ok` does. -/
def Delivery.fate? (d : Delivery) : Except WriteError Unit → Option Fate
  | .ok () => some (.applied d)
  | .error _ => none

/-- The mutation that a fate settles in the given attempt on an entry of time `written`: `applied`
    for this attempt at just that time, or `dropped` for a truncation then or later. -/
def Fate.settles (attempt : Nat) (written : Timestamp) : Fate → Option Mutation
  | .applied d => if d.attempt = attempt ∧ d.written = written then some d.mutation else none
  | .dropped m truncated => if written ≤ truncated then some m else none

namespace Journal

variable {W : WritePath}

/-- The fate that an act decides: of the delivery that a worker asks the write path for, or of the
    mutation that the pass sorts out. -/
def fate? (g : Journal W) : Act W → Option Fate
  | .worker (.apply w choice) =>
    match g.task? w with
    | some (.waiting d) =>
      match (W.apply choice g.path d.mutation d.written).1 with
      | .answered r => d.fate? r
      | .brokeDown => none
    | _ => none
  | .pass .sort =>
    match g.pass.map Pass.phase with
    | some (.sorting _ (m :: _) _ _) => (W.truncatedAt g.path m.table).map (.dropped m)
    | _ => none
  | _ => none

/-- The fates that are decided in a run, in the order of the acts. -/
def fates (g : Journal W) : List (Act W) → List Fate
  | [] => []
  | a :: acts => (g.fate? a).toList ++ (match g.step a with | some g' => g'.fates acts | none => [])

theorem fates_concat {g g' : Journal W} {acts : List (Act W)} (h : g.run acts = some g')
    (a : Act W) : g.fates (acts ++ [a]) = g.fates acts ++ (g'.fate? a).toList := by
  induction acts generalizing g with
  | nil =>
    obtain rfl := Option.some.inj h
    simp only [List.nil_append, fates]
    cases g.step a <;> simp
  | cons b acts ih =>
    obtain ⟨g₁, hstep, hrun⟩ := Option.bind_eq_some_iff.1 h
    simp only [List.cons_append, fates, hstep, ih hrun, List.append_assoc]

end Journal

/-- The entry that a pass makes an attempt on, from `sorting` to `deleting`. -/
def Phase.attempting? : Phase → Option Entry
  | .sorting e _ _ _ | .offering e _ _ _ | .inserting e _ _ _ _ | .rousing e _ _ _
  | .collecting e _ _ | .deleting e _ => some e
  | _ => none

namespace Journal

variable {W : WritePath}

/-- **A run that ends within an attempt** on an entry: the attempt of number `n` began with all of
    its mutations, the pass has been at it since, and the given mutations were settled in it. -/
def Attempted (start : Journal W) (acts : List (Act W)) (e : Entry) (n : Nat)
    (ms settled : List Mutation) : Prop :=
  ∃ earlier attempt g₁ p₁, acts = earlier ++ attempt ∧ start.run earlier = some g₁
    ∧ g₁.pass = some p₁ ∧ p₁.phase = .sorting e ms [] 0 ∧ g₁.attempts + 1 = n
    ∧ start.registry.decode e.version e.payload = .ok ms
    ∧ (∀ part, part <+: attempt → ∃ g₂ p₂, g₁.run part = some g₂ ∧ g₂.pass = some p₂
        ∧ p₂.phase.attempting? = some e)
    ∧ (g₁.fates attempt).filterMap (Fate.settles n e.written) = settled

variable {start g g' : Journal W} {acts : List (Act W)} {a : Act W} {e : Entry} {n : Nat}
  {ms settled : List Mutation} {p : Pass}

/-- An attempt begins when the pass comes to `sorting` with all mutations of the entry. -/
theorem attempted_of_sorting (hrun : start.run acts = some g) (hpass : g.pass = some p)
    (hphase : p.phase = .sorting e ms [] 0)
    (hdecode : start.registry.decode e.version e.payload = .ok ms) :
    Attempted start acts e (g.attempts + 1) ms [] := by
  refine ⟨acts, [], g, p, by simp, hrun, hpass, hphase, rfl, hdecode, ?_, rfl⟩
  intro part hpart
  rw [List.prefix_nil.1 hpart]
  exact ⟨g, p, rfl, hpass, by rw [hphase]; rfl⟩

/-- An attempt goes on with an act after which the pass is still `attempting?` the entry; what the
    act settles is added. -/
theorem Attempted.concat (h : Attempted start acts e n ms settled)
    (hrun : start.run acts = some g) (hstep : g.step a = some g') (hpass : g'.pass = some p)
    (hphase : p.phase.attempting? = some e) :
    Attempted start (acts ++ [a]) e n ms
      (settled ++ (g.fate? a).toList.filterMap (Fate.settles n e.written)) := by
  obtain ⟨earlier, attempt, g₁, p₁, rfl, hearlier, hpass₁, hphase₁, hn, hdecode, hwithin, rfl⟩ := h
  have hattempt : g₁.run attempt = some g := by
    rw [run_append, hearlier] at hrun
    exact hrun
  refine ⟨earlier, attempt ++ [a], g₁, p₁, by simp, hearlier, hpass₁, hphase₁, hn, hdecode, ?_, ?_⟩
  · intro part hpart
    rcases List.prefix_concat_iff.1 hpart with rfl | hpart
    · exact ⟨g', p, run_concat.2 ⟨g, hattempt, hstep⟩, hpass, hphase⟩
    · exact hwithin part hpart
  · rw [fates_concat hattempt, List.filterMap_append]

end Journal

/-! ### The account of an attempt -/

/-- The task belongs to attempt `n` and is not for the time `written`. -/
def Task.astray (n : Nat) (written : Timestamp) (t : Task) : Bool :=
  t.belongs n && !decide (t.delivery.written = written)

/-- The task carries the good answer to a delivery of attempt `n`. -/
def Task.confirms (n : Nat) : Task → Bool
  | .answered d (.ok ()) => d.attempt = n
  | _ => false

theorem Task.belongs_of_astray {n : Nat} {written : Timestamp} {t : Task}
    (h : t.astray n written = true) : t.belongs n = true :=
  (Bool.and_eq_true_iff.1 h).1

theorem Task.belongs_of_confirms {n : Nat} {t : Task} (h : t.confirms n = true) :
    t.belongs n = true := by
  cases t with
  | waiting d => simp [confirms] at h
  | answered d r =>
    cases r with
    | ok u => exact h
    | error err => simp [confirms] at h

theorem Task.belongs_of_waitsFor {d : Delivery} {t : Task} (h : t.waitsFor d = true) :
    t.belongs d.attempt = true := by
  cases t with
  | waiting d' =>
    obtain rfl : d' = d := of_decide_eq_true h
    simp [belongs, delivery]
  | answered d' r => simp [waitsFor] at h

/-- **The account of an attempt** `n` on the entry `e` with the mutations `ms`: `settled` of them
    have met their fate, `rest` are still to be handed to the pool, and the pass waits for `pending`
    answers. -/
structure Account (pool : Pool Task) (mailbox : List (Except WriteError Unit)) (n : Nat) (e : Entry)
    (ms settled rest : List Mutation) (pending : Nat) : Prop where
  /-- Every delivery of the attempt is for `e.written`. -/
  own : pool.tally (Task.astray n e.written) = 0
  /-- No mutation is in `settled`, with the workers or in `rest` more often than in `ms`. -/
  covered : ∀ m, settled.count m + pool.tally (Task.waitsFor ⟨n, m, e.written⟩) + rest.count m
    ≤ ms.count m
  /-- No good answer is about, or was taken already, without a mutation in `settled`. -/
  counted : ms.length + mailbox.countP Except.isOk + pool.tally (Task.confirms n)
    ≤ rest.length + pending + settled.length

namespace Account

variable {pool pool' : Pool Task} {mailbox mailbox' : List (Except WriteError Unit)} {n : Nat}
  {e : Entry} {ms settled rest : List Mutation} {pending : Nat}

/-- Tasks may be dropped: `Account` bounds the tallies from above. -/
theorem aside (h : Account pool mailbox n e ms settled rest pending)
    (htally : ∀ q, pool'.tally q ≤ pool.tally q) :
    Account pool' mailbox n e ms settled rest pending where
  own := Nat.le_zero.1 (h.own ▸ htally _)
  covered m := by
    have hcovered := h.covered m
    have hle := htally (Task.waitsFor ⟨n, m, e.written⟩)
    omega
  counted := by
    have hcounted := h.counted
    have hle := htally (Task.confirms n)
    omega

/-- What is `settled` and the `rest` belong to the entry. -/
theorem subperm (h : Account pool mailbox n e ms settled rest pending) :
    (settled ++ rest).Subperm ms := by
  refine List.subperm_ext_iff.2 fun m _ => ?_
  have hcovered := h.covered m
  rw [List.count_append]
  omega

/-- **An attempt begins** with an empty mailbox and none of its deliveries in the pool. -/
theorem start (hperm : ms.Perm (settled ++ rest))
    (hnew : pool.tally (Task.belongs n) = 0) : Account pool [] n e ms settled rest 0 where
  own := by
    have hle := @Pool.tally_mono _ pool (Task.astray n e.written) (Task.belongs n) fun t ht =>
      Task.belongs_of_astray ht
    omega
  covered m := by
    have hle := @Pool.tally_mono _ pool (Task.waitsFor ⟨n, m, e.written⟩) (Task.belongs n) fun t ht =>
      Task.belongs_of_waitsFor ht
    rw [hperm.count_eq, List.count_append]
    omega
  counted := by
    have hle := @Pool.tally_mono _ pool (Task.confirms n) (Task.belongs n) fun t ht =>
      Task.belongs_of_confirms ht
    rw [hperm.length_eq, List.length_append, List.countP_nil]
    omega

/-- **A mutation is handed to the pool,** by `push`. -/
theorem insert {m : Mutation} (h : Account pool mailbox n e ms settled (m :: rest) pending)
    (hpush : pool.push (.waiting ⟨n, m, e.written⟩) = some pool') :
    Account pool' mailbox n e ms settled rest (pending + 1) where
  own := by
    rw [Pool.tally_push hpush, h.own]
    simp [Task.astray, Task.delivery]
  covered m' := by
    have hcovered := h.covered m'
    rw [List.count_cons] at hcovered
    rw [Pool.tally_push hpush]
    -- Only the mutation inserted has one copy more waiting and one less left to offer.
    by_cases hm : m = m'
    · subst hm
      simp only [BEq.rfl, if_true] at hcovered
      simp only [Task.waitsFor, decide_true, if_true]
      omega
    · have hne : Task.waitsFor ⟨n, m', e.written⟩ (.waiting ⟨n, m, e.written⟩) = false := by
        simp [Task.waitsFor, hm]
      simp only [hne, Bool.false_eq_true, if_false]
      omega
  counted := by
    have hcounted := h.counted
    rw [List.length_cons] at hcounted
    rw [Pool.tally_push hpush]
    simp only [Task.confirms, Bool.false_eq_true, if_false]
    omega

/-- A delivery of attempt `n` is for `e.written`. -/
theorem written_eq (h : Account pool mailbox n e ms settled rest pending) {d : Delivery}
    (hpresent : 0 < pool.tally (Task.waitsFor d)) (hn : d.attempt = n) : d.written = e.written := by
  by_contra hne
  have hle := @Pool.tally_mono _ pool (Task.waitsFor d) (Task.astray n e.written) fun t ht => by
    cases t with
    | waiting d' =>
      obtain rfl : d' = d := of_decide_eq_true ht
      simp [Task.astray, Task.belongs, Task.delivery, hn, hne]
    | answered d' r' => simp [Task.waitsFor] at ht
  have hzero := h.own
  omega

/-- **An answer of the write path** settles the mutation if it is good and for attempt `n`. -/
theorem answer (h : Account pool mailbox n e ms settled rest pending) {d : Delivery}
    {r : Except WriteError Unit}
    (htally : ∀ q, pool'.tally q + (if q (.waiting d) then 1 else 0)
      = pool.tally q + if q (.answered d r) then 1 else 0) :
    Account pool' mailbox n e ms
      (settled ++ (d.fate? r).toList.filterMap (Fate.settles n e.written)) rest pending := by
  -- The answered job was waiting, so what it was written with is what `h.own` says of waiting jobs.
  have hpresent : 0 < pool.tally (Task.waitsFor d) := by
    have hd := htally (Task.waitsFor d)
    simp only [Task.waitsFor, decide_true, if_true, Bool.false_eq_true, if_false] at hd
    omega
  have hsettles : (d.fate? r).toList.filterMap (Fate.settles n e.written)
      = if r = .ok () ∧ d.attempt = n then [d.mutation] else [] := by
    cases r with
    | error err => simp [Delivery.fate?]
    | ok u =>
      by_cases hn : d.attempt = n
      · simp [Delivery.fate?, Fate.settles, hn, h.written_eq hpresent hn]
      · simp [Delivery.fate?, Fate.settles, hn]
  rw [hsettles]
  refine ⟨?_, fun m => ?_, ?_⟩
  · -- Being astray is read off the delivery alone, so the answer changes nothing there.
    have hsame := htally (Task.astray n e.written)
    have hzero := h.own
    have hkind : Task.astray n e.written (.answered d r) = Task.astray n e.written (.waiting d) :=
      rfl
    rw [hkind] at hsame
    omega
  · have hcovered := h.covered m
    have hm := htally (Task.waitsFor ⟨n, m, e.written⟩)
    simp only [Task.waitsFor, Bool.false_eq_true, if_false, decide_eq_true_eq] at hm
    rw [List.count_append]
    -- Only a good answer within this attempt moves a copy from waiting to settled.
    by_cases hgood : r = .ok () ∧ d.attempt = n
    · rw [if_pos hgood, List.count_singleton]
      by_cases hdm : d.mutation = m
      · have hd : d = ⟨n, m, e.written⟩ := by
          rw [← hdm, ← hgood.2, ← h.written_eq hpresent hgood.2]
        rw [if_pos hd] at hm
        rw [if_pos (by rw [hdm]; exact BEq.rfl)]
        omega
      · rw [if_neg (by simpa using hdm)]
        omega
    · rw [if_neg hgood, List.count_nil]
      omega
  · have hcounted := h.counted
    have hconfirms := htally (Task.confirms n)
    have hasked : Task.confirms n (.waiting d) = false := rfl
    rw [List.length_append]
    -- The same answer is what `Task.confirms` counts from now on.
    by_cases hgood : r = .ok () ∧ d.attempt = n
    · have hkind : Task.confirms n (.answered d r) = true := by
        rw [hgood.1]
        exact decide_eq_true hgood.2
      simp only [hkind, hasked, Bool.false_eq_true, if_false, if_true] at hconfirms
      rw [if_pos hgood, List.length_singleton]
      omega
    · have hkind : Task.confirms n (.answered d r) = false := by
        cases r with
        | error err => rfl
        | ok u => simpa [Task.confirms] using hgood
      simp only [hkind, hasked, Bool.false_eq_true, if_false] at hconfirms
      rw [if_neg hgood, List.length_nil]
      omega

/-- **A report** puts into the mailbox what a worker carried. -/
theorem report (h : Account pool mailbox n e ms settled rest pending) {d : Delivery}
    {r : Except WriteError Unit}
    (htally : ∀ q, pool'.tally q + (if q (.answered d r) then 1 else 0) = pool.tally q) :
    Account pool' (if d.attempt = n then mailbox ++ [r] else mailbox) n e ms settled rest pending := by
  have hle : ∀ q, pool'.tally q ≤ pool.tally q := fun q => Nat.le.intro (htally q)
  have haside := h.aside hle
  refine ⟨haside.own, haside.covered, ?_⟩
  have hcounted := h.counted
  have hconfirms := htally (Task.confirms n)
  -- A report of another attempt reaches a mailbox nobody reads.
  by_cases hn : d.attempt = n
  · rw [if_pos hn, List.countP_append]
    have hkind : Task.confirms n (.answered d r) = r.isOk := by
      cases r with
      | ok u => exact decide_eq_true hn
      | error err => rfl
    rw [hkind] at hconfirms
    rw [List.countP_singleton]
    omega
  · rw [if_neg hn]
    omega

/-- **A good answer is taken** from the mailbox; it was among the `pending` ones. -/
theorem collect (h : Account pool (.ok () :: mailbox) n e ms settled rest pending) :
    Account pool mailbox n e ms settled rest (pending - 1) := by
  refine ⟨h.own, h.covered, ?_⟩
  have hcounted := h.counted
  have hlength := h.subperm.length_le
  have hgood : Except.isOk (.ok () : Except WriteError Unit) = true := rfl
  rw [List.countP_cons, if_pos hgood] at hcounted
  rw [List.length_append] at hlength
  omega

/-- **When `rest` is empty and nothing is `pending`** every mutation is settled. -/
theorem perm (h : Account pool mailbox n e ms settled [] 0) : ms.Perm settled := by
  have hcounted := h.counted
  have hsubperm := h.subperm
  rw [List.append_nil] at hsubperm
  rw [List.length_nil] at hcounted
  exact (hsubperm.perm_of_length_le (by omega)).symm

end Account

namespace Journal

variable {W : WritePath} {start g g' : Journal W} {acts : List (Act W)} {a : Act W} {p : Pass}

/-! ### The account of a run -/

/-- What an attempt with `rest` to hand out and `pending` answers to collect owes the entry. -/
def Owes (start : Journal W) (acts : List (Act W)) (g : Journal W) (e : Entry)
    (rest : List Mutation) (pending : Nat) : Prop :=
  ∃ ms settled, Attempted start acts e g.attempts ms settled
    ∧ Account g.pool g.mailbox g.attempts e ms settled rest pending

/-- What is to be known of a pass in a given `Phase`. -/
def InHand (start : Journal W) (acts : List (Act W)) (g : Journal W) : Phase → Prop
  | .pacing e ms | .resting e ms => start.registry.decode e.version e.payload = .ok ms
  | .sorting e rest live _ =>
    ∃ ms settled, Attempted start acts e (g.attempts + 1) ms settled
      ∧ ms.Perm (settled ++ (live ++ rest))
  | .offering e rest pending _ | .rousing e rest pending _ => Owes start acts g e rest pending
  | .inserting e m rest pending _ => Owes start acts g e (m :: rest) pending
  | .collecting e pending _ => Owes start acts g e [] pending
  | .deleting e _ => Owes start acts g e [] 0
  | .between | .fetched _ | .failed _ _ | .finished _ => True

/-- **The invariant of a run:** the formats stay, no task belongs to an attempt that is still to
    come, and the attempt under way is accounted for. -/
structure Tracked (start : Journal W) (acts : List (Act W)) (g : Journal W) : Prop where
  /-- The formats are the same. -/
  registry : g.registry = start.registry
  /-- No task belongs to a later attempt than `g.attempts`. -/
  bounded : ∀ n, g.attempts < n → g.pool.tally (Task.belongs n) = 0
  /-- The pass is accounted for. -/
  inHand : ∀ p, g.pass = some p → InHand start acts g p.phase

/-- Where `Owes` holds and the attempt goes on, it is enough to keep the `Account`. -/
theorem Owes.of_account {e : Entry} {rest rest' : List Mutation} {pending pending' : Nat}
    (h : Owes start acts g e rest pending) (hrun : start.run acts = some g)
    (hstep : g.step a = some g') (hattempts : g'.attempts = g.attempts)
    (hpass : g'.pass = some p) (hphase : p.phase.attempting? = some e)
    (haccount : ∀ ms settled, Account g.pool g.mailbox g.attempts e ms settled rest pending →
      Account g'.pool g'.mailbox g.attempts e ms
        (settled ++ (g.fate? a).toList.filterMap (Fate.settles g.attempts e.written)) rest' pending') :
    Owes start (acts ++ [a]) g' e rest' pending' := by
  obtain ⟨ms, settled, hattempted, h⟩ := h
  refine ⟨ms, _, ?_, by rw [hattempts]; exact haccount ms settled h⟩
  rw [hattempts]
  exact hattempted.concat hrun hstep hpass hphase

/-- What an act of somebody else than the pass leaves of it: its phase, and an `Account` that is
    kept. -/
theorem InHand.keep {phase : Phase} (h : InHand start acts g phase)
    (hrun : start.run acts = some g) (hstep : g.step a = some g')
    (hattempts : g'.attempts = g.attempts) (hpass : g'.pass = some p) (hphase : p.phase = phase)
    (hlater : ∀ written, (g.fate? a).toList.filterMap (Fate.settles (g.attempts + 1) written) = [])
    (haccount : ∀ e ms settled rest pending,
      Account g.pool g.mailbox g.attempts e ms settled rest pending →
      Account g'.pool g'.mailbox g.attempts e ms
        (settled ++ (g.fate? a).toList.filterMap (Fate.settles g.attempts e.written)) rest pending) :
    InHand start (acts ++ [a]) g' phase := by
  -- `Owes` is the same in every phase after sorting; `hlater` serves sorting, whose attempt is
  -- still to come.
  have howes : ∀ {e rest pending}, p.phase.attempting? = some e → Owes start acts g e rest pending →
      Owes start (acts ++ [a]) g' e rest pending := fun hphase h =>
    h.of_account hrun hstep hattempts hpass hphase fun ms settled => haccount _ ms settled _ _
  cases phase with
  | pacing e ms | resting e ms => exact h
  | sorting e rest live dropped =>
    obtain ⟨ms, settled, hattempted, hperm⟩ := h
    have hnext := hattempted.concat hrun hstep hpass (by rw [hphase]; rfl)
    rw [hlater, List.append_nil] at hnext
    exact ⟨ms, settled, by rw [hattempts]; exact hnext, hperm⟩
  | offering e rest pending dropped | rousing e rest pending dropped
  | inserting e m rest pending dropped | collecting e pending dropped | deleting e dropped =>
    exact howes (by rw [hphase]; rfl) h
  | between | fetched e | failed e reason | finished result => trivial

/-- `Tracked` needs nothing of later attempts but that they have no tasks. -/
theorem Tracked.of_inHand (h : Tracked start acts g) {acts' : List (Act W)}
    (hregistry : g'.registry = g.registry) (hattempts : g.attempts ≤ g'.attempts)
    (hle : ∀ n, g'.attempts < n → g'.pool.tally (Task.belongs n) ≤ g.pool.tally (Task.belongs n))
    (hinHand : ∀ p, g'.pass = some p → InHand start acts' g' p.phase) :
    Tracked start acts' g' where
  registry := hregistry.trans h.registry
  bounded n hn := by
    have hzero := h.bounded n (by omega)
    have hless := hle n hn
    omega
  inHand := hinHand

/-- An act that stands `Aside` and decides no fate keeps `Tracked`. -/
theorem Tracked.aside (h : Tracked start acts g) (hrun : start.run acts = some g)
    (hstep : g.step a = some g') (haside : g.Aside g') (hfate : g.fate? a = none) :
    Tracked start (acts ++ [a]) g' := by
  refine h.of_inHand haside.registry (Nat.le_of_eq haside.attempts.symm)
    (fun n _ => haside.tally_le _) fun p hp => ?_
  have hbefore := h.inHand p (by rw [← haside.pass]; exact hp)
  refine hbefore.keep hrun hstep haside.attempts hp rfl (by simp [hfate]) ?_
  intro e ms settled rest pending haccount
  rw [haside.mailbox, hfate]
  simpa using haccount.aside haside.tally_le

/-- **Workers keep `Tracked`.** -/
theorem Tracked.worker (h : Tracked start acts g) (hrun : start.run acts = some g)
    {act : WorkerAct W} (hstep : g.step (.worker act) = some g') :
    Tracked start (acts ++ [.worker act]) g' := by
  cases workerStep_cases hstep with
  | aside haside htally hidle =>
    refine h.aside hrun hstep haside ?_
    cases act with
    | apply w choice => exact absurd rfl (hidle w choice)
    | proceed w | report w | stray i choice => rfl
  | breakDown d htask hanswer haside htally =>
    refine h.aside hrun hstep haside ?_
    have hbroke : (W.apply _ g.path d.mutation d.written).1 = .brokeDown := hanswer
    simp only [fate?, htask, hbroke]
  | answer d r htask hanswer hrest htally =>
    obtain ⟨hpass, hattempts, hmailbox, hregistry⟩ := hrest
    rename_i w choice
    have hfate : g.fate? (.worker (.apply w choice)) = d.fate? r := by
      have hanswered : (W.apply choice g.path d.mutation d.written).1 = .answered r := hanswer
      simp only [fate?, htask, hanswered]
    have hsame : ∀ n, g'.pool.tally (Task.belongs n) = g.pool.tally (Task.belongs n) := by
      intro n
      have hn := htally (Task.belongs n)
      have hkind : Task.belongs n (.answered d r) = Task.belongs n (.waiting d) := rfl
      rw [hkind] at hn
      omega
    -- The delivery is of no attempt that is still to come.
    have hearlier : d.attempt ≠ g.attempts + 1 := by
      intro hd
      have hzero := h.bounded (g.attempts + 1) (by omega)
      have hd' := htally (Task.waitsFor d)
      simp only [Task.waitsFor, decide_true, if_true, Bool.false_eq_true, if_false] at hd'
      have hle := @Pool.tally_mono _ g.pool (Task.waitsFor d) (Task.belongs (g.attempts + 1))
        fun t ht => by rw [← hd]; exact Task.belongs_of_waitsFor ht
      omega
    refine h.of_inHand hregistry (Nat.le_of_eq hattempts.symm) (fun n _ => Nat.le_of_eq (hsame n))
      fun p hp => ?_
    have hbefore := h.inHand p (by rw [← hpass]; exact hp)
    refine hbefore.keep hrun hstep hattempts hp rfl ?_ ?_
    · intro written
      rw [hfate]
      cases r with
      | ok u => simp [Delivery.fate?, Fate.settles, hearlier]
      | error err => rfl
    · intro e ms settled rest pending haccount
      rw [hmailbox, hfate]
      exact haccount.answer htally
  | report d r hrest hmailbox htally =>
    obtain ⟨hpass, hattempts, hregistry⟩ := hrest
    refine h.of_inHand hregistry (Nat.le_of_eq hattempts.symm)
      (fun n _ => Nat.le.intro (htally _)) fun p hp => ?_
    have hbefore := h.inHand p (by rw [← hpass]; exact hp)
    refine hbefore.keep hrun hstep hattempts hp rfl (fun _ => rfl) ?_
    intro e ms settled rest pending haccount
    rw [hmailbox]
    simpa [fate?] using haccount.report htally

/-- A pass in a phase of which `InHand` asks nothing keeps `Tracked`. -/
theorem Tracked.atEase (h : Tracked start acts g) {acts' : List (Act W)}
    (hregistry : g'.registry = g.registry) (hattempts : g'.attempts = g.attempts)
    (htally : ∀ q, g'.pool.tally q ≤ g.pool.tally q) (hpass : g'.pass = some p)
    (hphase : ∀ acts g, InHand start acts g p.phase) : Tracked start acts' g' :=
  h.of_inHand hregistry (Nat.le_of_eq hattempts.symm) (fun _ _ => htally _) fun p' hp' => by
    obtain rfl := Option.some.inj (hpass.symm.trans hp')
    exact hphase acts' g'

/-- A pass that comes to `sorting` with the decoded mutations keeps `Tracked`. -/
theorem Tracked.sorting (h : Tracked start acts g) {p₁ : Pass} {e : Entry} {ms : List Mutation}
    (hrun : start.run (acts ++ [a]) = some (g.passAt p₁ (.sorting e ms [] 0)))
    (hdecode : start.registry.decode e.version e.payload = .ok ms) :
    Tracked start (acts ++ [a]) (g.passAt p₁ (.sorting e ms [] 0)) := by
  refine h.of_inHand rfl (Nat.le_refl _) (fun _ _ => Nat.le_refl _) fun p hp => ?_
  obtain rfl := Option.some.inj hp
  exact ⟨ms, [], attempted_of_sorting hrun hp rfl hdecode, by simp⟩

/-- A pass that goes on with an attempt keeps `Tracked`, if it keeps its `Account`. -/
theorem Tracked.owing (h : Tracked start acts g) {g₁ : Journal W} {p₁ : Pass} {phase : Phase}
    {e : Entry} {rest rest' : List Mutation} {pending pending' : Nat}
    (howes : Owes start acts g e rest pending) (hrun : start.run acts = some g)
    (hstep : g.step a = some (g₁.passAt p₁ phase)) (hfate : g.fate? a = none)
    (hregistry : g₁.registry = g.registry) (hattempts : g₁.attempts = g.attempts)
    (hle : ∀ n, g.attempts < n → g₁.pool.tally (Task.belongs n) ≤ g.pool.tally (Task.belongs n))
    (hphase : phase.attempting? = some e)
    (hinHand : Owes start (acts ++ [a]) (g₁.passAt p₁ phase) e rest' pending' →
      InHand start (acts ++ [a]) (g₁.passAt p₁ phase) phase)
    (haccount : ∀ ms settled, Account g.pool g.mailbox g.attempts e ms settled rest pending →
      Account g₁.pool g₁.mailbox g.attempts e ms settled rest' pending') :
    Tracked start (acts ++ [a]) (g₁.passAt p₁ phase) := by
  refine h.of_inHand hregistry (Nat.le_of_eq hattempts.symm)
    (fun n hn => hle n (by rw [← hattempts]; exact hn)) fun p hp => ?_
  -- The one pass of `g₁.passAt p₁ phase` is the one `hinHand` is about.
  obtain rfl := Option.some.inj hp
  refine hinHand (howes.of_account hrun hstep hattempts hp hphase fun ms settled hbefore => ?_)
  rw [hfate, Option.toList_none, List.filterMap_nil, List.append_nil]
  exact haccount ms settled hbefore

/-- `awaiting` is `InHand` where the attempt owes nothing but answers. -/
theorem inHand_awaiting {e : Entry} {pending dropped : Nat}
    (h : Owes start acts g e [] pending) : InHand start acts g (awaiting e pending dropped) := by
  unfold awaiting
  split
  · rename_i hnone
    rw [hnone] at h
    exact h
  · exact h

theorem attempting?_awaiting (e : Entry) (pending dropped : Nat) :
    (awaiting e pending dropped).attempting? = some e := by
  unfold awaiting
  split <;> rfl

/-- **Sorting out a mutation** settles it if it is dropped. -/
theorem Tracked.sort (h : Tracked start acts g) (hrun : start.run acts = some g)
    (hpass : g.pass = some p) (hstep : g.step (.pass .sort) = some g')
    (hmove : g.PassMove p .sort g') : Tracked start (acts ++ [.pass .sort]) g' := by
  have hbefore := h.inHand p hpass
  cases hmove with
  | dropped hphase htruncated hlate =>
    rename_i e m rest live dropped truncated
    rw [hphase] at hbefore
    obtain ⟨ms, settled, hattempted, hperm⟩ := hbefore
    refine h.of_inHand rfl (Nat.le_refl _) (fun _ _ => Nat.le_refl _) fun p' hp' => ?_
    obtain rfl := Option.some.inj hp'
    have hnext := hattempted.concat hrun hstep hp' rfl
    have hfate : g.fate? (.pass .sort) = some (.dropped m truncated) := by
      simp [fate?, hpass, hphase, htruncated]
    -- A drop settles its mutation under the number the attempt is about to get.
    have hsettles : Fate.settles (g.attempts + 1) e.written (.dropped m truncated) = some m :=
      if_pos hlate
    simp only [hfate, Option.toList_some, List.filterMap_cons, hsettles, List.filterMap_nil]
      at hnext
    refine ⟨ms, settled ++ [m], hnext, hperm.trans ?_⟩
    rw [List.append_assoc]
    -- The mutation moves from those left to sort to those settled.
    exact .append_left settled List.perm_middle
  | kept hphase hkept =>
    rename_i e m rest live dropped
    rw [hphase] at hbefore
    obtain ⟨ms, settled, hattempted, hperm⟩ := hbefore
    refine h.of_inHand rfl (Nat.le_refl _) (fun _ _ => Nat.le_refl _) fun p' hp' => ?_
    obtain rfl := Option.some.inj hp'
    have hnext := hattempted.concat hrun hstep hp' rfl
    have hfate : g.fate? (.pass .sort) = (W.truncatedAt g.path m.table).map (.dropped m) := by
      simp [fate?, hpass, hphase]
    -- Nothing is settled: either no truncation is known, or it is older than the entry.
    have hnothing : (g.fate? (.pass .sort)).toList.filterMap
        (Fate.settles (g.attempts + 1) e.written) = [] := by
      rw [hfate]
      cases htruncated : W.truncatedAt g.path m.table with
      | none => rfl
      | some truncated => simp [Fate.settles, hkept truncated htruncated]
    rw [hnothing, List.append_nil] at hnext
    exact ⟨ms, settled, hnext, by simpa using hperm⟩
  | attempted hphase =>
    rename_i e live dropped
    rw [hphase] at hbefore
    obtain ⟨ms, settled, hattempted, hperm⟩ := hbefore
    refine h.of_inHand rfl (Nat.le_succ _) (fun _ _ => Nat.le_refl _) fun p' hp' => ?_
    obtain rfl := Option.some.inj hp'
    have hnext := hattempted.concat hrun hstep hp' rfl
    have hfate : g.fate? (.pass .sort) = none := by simp [fate?, hpass, hphase]
    rw [hfate, Option.toList_none, List.filterMap_nil, List.append_nil] at hnext
    -- Nothing is left to sort, so `start` opens the account of the new attempt.
    rw [List.append_nil] at hperm
    exact ⟨ms, settled, hnext, .start hperm (h.bounded _ (Nat.lt_succ_self _))⟩

/-- **The pass keeps `Tracked`,** in each of its moves. -/
theorem Tracked.pass (h : Tracked start acts g) (hrun : start.run acts = some g)
    (hpass : g.pass = some p) {act : PassAct} (hstep : g.step (.pass act) = some g')
    (hmove : g.PassMove p act g') : Tracked start (acts ++ [.pass act]) g' := by
  have hnext : start.run (acts ++ [.pass act]) = some g' := run_concat.2 ⟨g, hrun, hstep⟩
  have hbefore := h.inHand p hpass
  have hease : ∀ {g₁ : Journal W} {p₁ : Pass}, g₁.pass = some p₁ → g₁.registry = g.registry →
      g₁.attempts = g.attempts → g₁.pool = g.pool → (∀ acts g, InHand start acts g p₁.phase) →
      Tracked start (acts ++ [.pass act]) g₁ :=
    fun hp hregistry hattempts hpool hphase =>
      h.atEase hregistry hattempts (fun _ => Nat.le_of_eq (by rw [hpool])) hp hphase
  cases hmove with
  | exhausted | skipped | fetched | stopped | wokenToStop | tooYoung | undecodable | refusedClosed
  | refusedFull | collectedError | abandoned | expired | counted | panicked =>
    -- No attempt is under way behind these.
    exact hease rfl rfl rfl rfl fun _ _ => trivial
  | accepted hphase hage hdecode hplace =>
    rw [h.registry] at hdecode
    rcases hplace with rfl | rfl
    · exact hease rfl rfl rfl rfl fun _ _ => hdecode
    · exact h.sorting hnext hdecode
  | paced hphase hplace =>
    rw [hphase] at hbefore
    rcases hplace with rfl | rfl
    · exact hease rfl rfl rfl rfl fun _ _ => hbefore
    · exact h.sorting hnext hbefore
  | woken hphase =>
    rw [hphase] at hbefore
    exact h.sorting hnext hbefore
  | dropped hphase htruncated hlate =>
    exact h.sort hrun hpass hstep (.dropped hphase htruncated hlate)
  | kept hphase hkept => exact h.sort hrun hpass hstep (.kept hphase hkept)
  | attempted hphase => exact h.sort hrun hpass hstep (.attempted hphase)
  | offeredAll hphase =>
    rw [hphase] at hbefore
    exact h.owing hbefore hrun hstep rfl rfl rfl (fun _ _ => Nat.le_refl _)
      (attempting?_awaiting _ _ _) inHand_awaiting fun _ _ => id
  | offered hphase hopen =>
    rw [hphase] at hbefore
    exact h.owing hbefore hrun hstep rfl rfl rfl (fun _ _ => Nat.le_refl _) rfl id fun _ _ => id
  | inserted hphase hpush =>
    rename_i e m rest pending dropped pool
    rw [hphase] at hbefore
    have hle : ∀ n, g.attempts < n →
        pool.tally (Task.belongs n) ≤ g.pool.tally (Task.belongs n) := by
      intro n hn
      have hother : Task.belongs n (.waiting ⟨g.attempts, m, e.written⟩) = false :=
        decide_eq_false (Nat.ne_of_lt hn)
      rw [Pool.tally_push hpush, hother]
      exact Nat.le_refl _
    exact h.owing hbefore hrun hstep rfl rfl rfl hle rfl id fun _ _ haccount =>
      haccount.insert hpush
  | roused hphase hrouse =>
    rename_i e rest pending dropped worker pool
    rw [hphase] at hbefore
    have hle : ∀ q, pool.tally q ≤ g.pool.tally q := fun q =>
      Nat.le_of_eq (Pool.tally_rouse hrouse)
    exact h.owing hbefore hrun hstep rfl rfl rfl (fun _ _ => hle _) rfl id fun _ _ haccount =>
      haccount.aside hle
  | collected hphase hmailbox =>
    rw [hphase] at hbefore
    refine h.owing hbefore hrun hstep rfl rfl rfl (fun _ _ => Nat.le_refl _)
      (attempting?_awaiting _ _ _) inHand_awaiting fun ms settled haccount => ?_
    rw [hmailbox] at haccount
    exact haccount.collect
  | deleted hphase hdelete | undeleted hphase hdelete =>
    obtain ⟨store, rfl⟩ := exists_store_of_onStore hdelete
    exact hease rfl rfl rfl rfl fun _ _ => trivial
  | retired hphase => exact h.of_inHand rfl (Nat.le_refl _) (fun _ _ => Nat.le_refl _) (by simp)

/-- **Every act keeps `Tracked`.** -/
theorem Tracked.step (h : Tracked start acts g) (hrun : start.run acts = some g)
    (hstep : g.step a = some g') : Tracked start (acts ++ [a]) g' := by
  cases stepMove_of_step hstep with
  | worker => exact h.worker hrun hstep
  | begun => exact h.atEase rfl rfl (fun _ => Nat.le_refl _) rfl fun _ _ => trivial
  | passed hpass hmove => exact h.pass hrun hpass hstep hmove
  | restarted =>
    exact
      { registry := h.registry
        bounded := fun n _ => Pool.tally_start _ _
        inHand := by simp [opened] }
  | aside ha =>
    refine h.aside hrun hstep (aside_of_step ha hstep) ?_
    cases a with
    | worker _ | pass _ | restart _ _ => exact Bool.noConfusion ha
    | client _ | path _ | control _ | closePool | clearPool => rfl

/-- **Every run keeps `Tracked`,** from a journal without a pass and with an empty pool. -/
theorem tracked_of_run (hnew : start.pass = none) (hpool : ∀ q, start.pool.tally q = 0)
    (hrun : start.run acts = some g) : Tracked start acts g := by
  induction acts using List.reverseRecOn generalizing g with
  | nil =>
    obtain rfl := Option.some.inj hrun
    exact { registry := rfl, bounded := fun _ _ => hpool _, inHand := by simp [hnew] }
  | append_singleton acts a ih =>
    obtain ⟨g₁, hrun₁, hstep⟩ := run_concat.1 hrun
    exact (ih hrun₁).step hrun₁ hstep

/-- **What is deleted was delivered.**  A pass at `deleting` began its latest attempt with the
    mutations that the payload decodes to, and has been at it since; and within that attempt each of
    them was either applied, at just the time of the entry and with a good answer, or dropped for a
    truncation of its table then or later: the `Fate`s settle `ms` up to order.  If no id is ever
    written twice, nothing but that entry is stored under its id. -/
theorem delivered_of_deleting {settings : Settings} {registry : Registry} {store : Store}
    {path : W.State} {strays : List Delivery} {medium left : Medium} {directory : String}
    {options : StoreOptions} {warnings : List Warning}
    (hopen : medium.openWith directory options = (.ok (store, warnings), left))
    {acts : List (Act W)} {g : Journal W} {p : Pass} {e : Entry} {dropped : Nat}
    (hrun : (opened settings registry store path strays).run acts = some g)
    (hpass : g.pass = some p) (hphase : p.phase = .deleting e dropped) :
    (∃ ms settled,
      Attempted (opened settings registry store path strays) acts e g.attempts ms settled
        ∧ ms.Perm settled)
      ∧ (((opened settings registry store path strays : Journal W).seen acts).Nodup →
        ∀ stored, g.entries.get? e.id = some stored → stored = e) := by
  have htracked := tracked_of_run rfl (fun q => Pool.tally_start _ _) hrun
  have howes := htracked.inHand p hpass
  rw [hphase] at howes
  obtain ⟨ms, settled, hattempted, haccount⟩ := howes
  -- The account of a deleting phase owes nothing, so what is settled is all there was.
  refine ⟨⟨ms, settled, hattempted, haccount.perm⟩, fun honce stored hstored => ?_⟩
  have hheld : g.inHand? = some e := by simp [inHand?, hpass, hphase, Phase.held?]
  exact stored_eq_of_inHand (Store.sound_of_openWith hopen) rfl hrun honce hheld hstored

/-- A journal over a replica without tables, with one entry stored whose payload only tells the
    number of its mutations, to be replayed at once and without a pace. -/
def holding (workers queueDepth : UInt64) (e : Entry) : Journal replicaPath :=
  opened
    { Settings.standard with replayTimeout := 0, throttleKib := 0, workers, queueDepth }
    (.single (.counting e.version)) (.memory (Entries.empty.put e)) Replica.empty []

/-- An entry of two mutations, the second of which finds its table truncated. -/
theorem delivered_of_deleting_two :
    ∃ acts g ms settled,
      (holding 1 1 ⟨default, ⟨5⟩, ⟨0⟩, [2]⟩).run acts = some g
        ∧ Attempted (holding 1 1 ⟨default, ⟨5⟩, ⟨0⟩, [2]⟩) acts ⟨default, ⟨5⟩, ⟨0⟩, [2]⟩ g.attempts
          ms settled
        ∧ ms.Perm settled
        ∧ ∀ stored, g.entries.get? default = some stored → stored = ⟨default, ⟨5⟩, ⟨0⟩, [2]⟩ := by
  have hopen : (Medium.memory (Entries.empty.put ⟨default, ⟨5⟩, ⟨0⟩, [2]⟩)).openWith ""
      ⟨.always, .zero, 0, default⟩ = (.ok (.memory _, []), .memory _) := rfl
  have hrun : (holding 1 1 ⟨default, ⟨5⟩, ⟨0⟩, [2]⟩).run
      [.path (.createTable ⟨"toy", "t"⟩), .control (.board none), .pass (.begin 0), .pass .fetch,
        .pass (.consider ⟨5⟩), .pass .sort, .path (.truncate ⟨"toy", "t"⟩ ⟨7⟩), .pass .sort,
        .pass .sort, .pass .offer, .pass .insert, .pass (.rouse none), .pass .offer,
        .worker (.proceed 0), .worker (.apply 0 none), .worker (.report 0), .pass .collect]
      = some _ := rfl
  obtain ⟨⟨ms, settled, hattempted, hperm⟩, hstored⟩ := delivered_of_deleting hopen hrun rfl rfl
  exact ⟨_, _, ms, settled, hrun, hattempted, hperm, hstored (by decide)⟩

end Journal

end BatchJournal
