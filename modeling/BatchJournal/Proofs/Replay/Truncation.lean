import BatchJournal.Proofs.Replay.Idempotence
import BatchJournal.Proofs.Replica.Readers

namespace BatchJournal

/-!
# What comes back after a truncation

A pass looks once whether the table of a mutation was truncated, when it sorts the mutations of an
entry.  From there the mutation goes through the pass, the queue and a worker, and nobody looks
again.  So a truncation holds against all that a pass has still to look at, and against nothing that
was let through before it and is not yet delivered.

* `Journal.letThrough` — the mutations that were let through and are not yet delivered.
* `Journal.letThrough_of_step` — nothing is let through that a truncation is against.
* `Journal.let_through_of_read` — what can be read after a truncation is newer than it, or was let
  through before it.
* `Journal.resurfaces` — and what was let through before it does come back.
-/

namespace Replica

variable {r r' : Replica} {t : TableName} {at' : Timestamp}

/-! ### Truncations of a replica -/

/-- `truncate` fails only for a table that does not exist. -/
theorem exists_truncate (h : r.hasTable t = true) (at' : Timestamp) :
    ∃ r', r.truncate t at' = .ok r' := by
  obtain ⟨former, hformer⟩ := Option.isSome_iff_exists.1 h
  exact ⟨_, by rw [truncate, hformer]⟩

/-- `truncate` is recorded, at its time or at that of an earlier call that was later. -/
theorem truncatedAt_truncate (h : r.truncate t at' = .ok r') :
    ∃ truncated, r'.truncatedAt t = some truncated ∧ at' ≤ truncated := by
  have hoccurs : r.occur (.truncate t at') = r' := by simp only [occur, h]
  have htruncates : r.truncation? t (.truncate t at') = some at' := if_pos ⟨rfl, by rw [h]; rfl⟩
  rw [← hoccurs, truncatedAt_occur_eq, htruncates]
  cases r.truncatedAt t with
  | none => exact ⟨_, rfl, Timestamp.le_refl _⟩
  | some former => exact ⟨_, rfl, (former.le_latest at').2⟩

/-- `truncatedAt` never goes back, whatever event occurs. -/
theorem truncatedAt_occur (event : ReplicaEvent) {truncated : Timestamp}
    (h : r.truncatedAt t = some truncated) :
    ∃ later, (r.occur event).truncatedAt t = some later ∧ truncated ≤ later := by
  rw [truncatedAt_occur_eq, h]
  cases r.truncation? t event with
  | none => exact ⟨truncated, rfl, Timestamp.le_refl _⟩
  | some at' => exact ⟨_, rfl, (truncated.le_latest at').1⟩

/-- What `since` has with one more event was there before, or is what the event delivers. -/
theorem mem_since_concat {events : List ReplicaEvent} {event : ReplicaEvent}
    {x : Mutation × Timestamp} (h : x ∈ since t (events ++ [event])) :
    x ∈ since t events
      ∨ ∃ m written, event = .deliver m written ∧ x = (m, written) ∧ m.table = t := by
  unfold since at h ⊢
  rw [accepted_concat] at h
  -- Only a delivery accepted by `t` itself adds a pair; a truncation of `t` empties the list.
  cases event with
  | createTable t' =>
    simp only [accept] at h
    split at h <;> exact .inl h
  | truncate t' at' =>
    simp only [accept] at h
    split at h
    · cases haccepted : accepted t events <;> simp [haccepted] at h
    · exact .inl h
  | deliver m written =>
    simp only [accept] at h
    split at h
    · rename_i ht
      cases haccepted : accepted t events with
      | none => simp [haccepted] at h
      | some arrivals =>
        rw [haccepted, Option.map_some, Option.getD_some] at h
        rcases List.mem_append.1 h with hbefore | hnew
        · exact .inl hbefore
        · exact .inr ⟨m, written, rfl, List.mem_singleton.1 hnew, ht⟩
    · exact .inl h

/-- A table that was just truncated has accepted nothing `since`. -/
theorem since_truncate (t : TableName) (at' : Timestamp) (events : List ReplicaEvent) :
    since t (events ++ [.truncate t at']) = [] := by
  rw [since, accepted_concat, accept, if_pos rfl]
  cases accepted t events <;> rfl

/-- **What can be read was accepted:** a mutation of the table that is in `since` wrote it. -/
theorem exists_of_read_after {events : List ReplicaEvent} {key value : Bytes}
    {clustering column : String}
    (h : (after events).read t key clustering column = some value) :
    ∃ m written, (m, written) ∈ since t events ∧ m.key = key
      ∧ .upsert clustering column value ∈ m.edits := by
  rw [read_after, Partition.read_after] at h
  obtain ⟨c, ⟨hc, -⟩, hvalue, -⟩ := h
  obtain ⟨⟨e, written⟩, hedit, hcell⟩ := List.mem_filterMap.1 hc
  obtain ⟨m, hmem, hkey, he⟩ := Arrivals.mem_edits_iff.1 hedit
  refine ⟨m, written, hmem, hkey, ?_⟩
  -- Of all edits only the writing of this value leaves a value in the slot.
  cases e with
  | upsert clustering' column' value' =>
    simp only [Edit.cell?, Option.ite_none_right_eq_some, Option.some.injEq] at hcell
    obtain ⟨hslot, rfl⟩ := hcell
    obtain ⟨rfl, rfl⟩ := Slot.mk.inj hslot
    obtain rfl := Option.some.inj hvalue
    exact he
  | deleteCell clustering' column' =>
    simp only [Edit.cell?, Option.ite_none_right_eq_some, Option.some.injEq] at hcell
    obtain ⟨-, rfl⟩ := hcell
    simp at hvalue
  | deletePartition => simp [Edit.cell?] at hcell

end Replica

/-! ### What was let through -/

/-- The delivery of a job that has still to ask the write path. -/
def Task.waiting? : Task → Option Delivery
  | .waiting d => some d
  | .answered _ _ => none

/-- The mutations that a pass has found not to be truncated and has still to hand out, each with the
    time of its batch. -/
def Phase.cleared : Phase → Arrivals
  | .sorting e _ live _ => live.map fun m => (m, e.written)
  | .offering e rest _ _ | .rousing e rest _ _ => rest.map fun m => (m, e.written)
  | .inserting e m rest _ _ => (m :: rest).map fun m => (m, e.written)
  | .between | .fetched _ | .pacing _ _ | .resting _ _ | .collecting _ _ _ | .deleting _ _
  | .failed _ _ | .finished _ => []

namespace Journal

variable {W : WritePath} {g g' : Journal W} {a : Act W} {p p' : Pass} {d : Delivery}
  {x : Mutation × Timestamp}

/-- The deliveries for which the write path has still to be asked: `waiting?` jobs and strays. -/
def unasked (g : Journal W) : List Delivery := g.pool.jobs.filterMap Task.waiting? ++ g.strays

/-- **What was let through:** the mutations that a pass found not to be truncated and that are not
    yet delivered, `cleared` in the pass, or `unasked` in the pool or left from an earlier
    journal. -/
def letThrough (g : Journal W) : Arrivals :=
  (g.pass.map fun p => p.phase.cleared).getD [] ++ g.unasked.map fun d => (d.mutation, d.written)

/-- No truncation is against the mutation: its table was not truncated at its time or later. -/
def Untruncated (g : Journal W) (x : Mutation × Timestamp) : Prop :=
  ∀ truncated, W.truncatedAt g.path x.1.table = some truncated → ¬ x.2 ≤ truncated

theorem mem_unasked_iff : d ∈ g.unasked ↔ .waiting d ∈ g.pool.jobs ∨ d ∈ g.strays := by
  have hjob : ∀ t, Task.waiting? t = some d ↔ t = .waiting d := by
    intro t
    cases t <;> simp [Task.waiting?]
  simp [unasked, hjob]

theorem mem_letThrough_iff :
    x ∈ g.letThrough ↔ (∃ p, g.pass = some p ∧ x ∈ p.phase.cleared)
      ∨ ∃ d ∈ g.unasked, (d.mutation, d.written) = x := by
  rw [letThrough, List.mem_append, List.mem_map]
  refine or_congr_left ?_
  cases g.pass <;> simp

/-- A delivery in `unasked` was so before, or the pass hands it out just now. -/
theorem unasked_of_step (h : g.step a = some g') (hd : d ∈ g'.unasked) :
    d ∈ g.unasked ∨ ∃ e, g.handed? a = some (e, d) := by
  obtain ⟨hjobs, hstrays⟩ := brings_of_step h
  rw [mem_unasked_iff] at hd ⊢
  rcases hd with hjob | hstray
  · rcases hjobs _ hjob with hbefore | ⟨d', r, heq, -⟩ | ⟨e, d', heq, hhanded⟩
    · exact .inl (.inl hbefore)
    · simp at heq
    · obtain rfl := Task.waiting.inj heq
      exact .inr ⟨e, hhanded⟩
  · exact .inl ((hstrays d hstray).symm)

/-- What is `handed?` out had been let through. -/
theorem cleared_of_handed {e : Entry} (h : g.handed? a = some (e, d)) :
    (d.mutation, d.written) ∈ g.letThrough := by
  unfold handed? at h
  split at h
  · split at h
    · rename_i e' m rest pending dropped hphase
      obtain ⟨rfl, rfl⟩ := Prod.mk.inj (Option.some.inj h)
      obtain ⟨p, hpass, hphase⟩ := Option.map_eq_some_iff.1 hphase
      refine mem_letThrough_iff.2 (.inl ⟨p, hpass, ?_⟩)
      rw [hphase]
      exact List.mem_cons_self
    · simp at h
  · simp at h

theorem cleared_awaiting (e : Entry) (pending dropped : Nat) :
    (awaiting e pending dropped).cleared = [] := by
  unfold awaiting
  split <;> rfl

/-- **A `PassMove`** lets nothing through but what is `Untruncated`. -/
theorem cleared_of_passMove {act : PassAct} (h : g.PassMove p act g') (hpass' : g'.pass = some p')
    (hx : x ∈ p'.phase.cleared) : x ∈ p.phase.cleared ∨ g.Untruncated x := by
  have hcleared : ∀ {phase : Phase}, p.phase = phase → x ∈ phase.cleared →
      x ∈ p.phase.cleared ∨ g.Untruncated x := by
    intro phase hphase hx
    exact .inl (hphase ▸ hx)
  cases h with
  | accepted hphase hage hdecode hplace | paced hphase hplace =>
    obtain rfl := Option.some.inj hpass'
    rcases hplace with rfl | rfl <;> simp [Phase.cleared] at hx
  | kept hphase hkept =>
    -- Only here something is let through, and the truncations were looked at just now.
    obtain rfl := Option.some.inj hpass'
    simp only [Phase.cleared, List.map_append, List.mem_append, List.map_cons,
      List.map_nil, List.mem_singleton] at hx
    rcases hx with hbefore | rfl
    · exact hcleared hphase hbefore
    · exact .inr hkept
  | dropped hphase | attempted hphase | offered hphase | roused hphase =>
    obtain rfl := Option.some.inj hpass'
    exact hcleared hphase hx
  | inserted hphase hpush =>
    -- What is put into the queue is the pass's no more, but that of the pool.
    obtain rfl := Option.some.inj hpass'
    exact hcleared hphase (List.mem_cons_of_mem _ hx)
  | offeredAll hphase | collected hphase hmailbox =>
    obtain rfl := Option.some.inj hpass'
    have hnone : x ∈ (awaiting _ _ _).cleared := hx
    rw [cleared_awaiting] at hnone
    simp at hnone
  | deleted hphase hdelete | undeleted hphase hdelete =>
    obtain ⟨store, rfl⟩ := exists_store_of_onStore hdelete
    obtain rfl := Option.some.inj hpass'
    simp [Phase.cleared] at hx
  | retired hphase => simp at hpass'
  | _ =>
    obtain rfl := Option.some.inj hpass'
    simp [Phase.cleared] at hx

/-- So does every act, as far as the pass goes. -/
theorem cleared_of_step (h : g.step a = some g') (hpass' : g'.pass = some p')
    (hx : x ∈ p'.phase.cleared) : x ∈ g.letThrough ∨ g.Untruncated x := by
  have hkept : g'.pass = g.pass → x ∈ g.letThrough ∨ g.Untruncated x := fun hpass =>
    .inl (mem_letThrough_iff.2 (.inl ⟨p', hpass ▸ hpass', hx⟩))
  cases stepMove_of_step h with
  | worker hstep => exact hkept (beside_of_workerStep hstep).pass
  | begun =>
    obtain rfl := Option.some.inj hpass'
    simp [Phase.cleared] at hx
  | @passed p _ _ hpass hmove =>
    exact (cleared_of_passMove hmove hpass' hx).imp_left fun hx =>
      mem_letThrough_iff.2 (.inl ⟨p, hpass, hx⟩)
  | restarted => simp [opened] at hpass'
  | aside => exact hkept rfl

/-- **Nothing is let through** but what is `Untruncated`. -/
theorem letThrough_of_step (h : g.step a = some g') (hx : x ∈ g'.letThrough) :
    x ∈ g.letThrough ∨ g.Untruncated x := by
  rcases mem_letThrough_iff.1 hx with ⟨p', hpass', hx⟩ | ⟨d, hd, rfl⟩
  · exact cleared_of_step h hpass' hx
  · rcases unasked_of_step h hd with hbefore | ⟨e, hhanded⟩
    · exact .inl (mem_letThrough_iff.2 (.inr ⟨d, hbefore, rfl⟩))
    · exact .inl (cleared_of_handed hhanded)

/-! ### Runs after a truncation -/

section replica

variable {g g' : Journal replicaPath} {a : Act replicaPath} {acts : List (Act replicaPath)}
  {t : TableName} {at' : Timestamp} {through : Arrivals}

/-- **What an act does to a replica:** nothing, what others do, or a delivery that was `unasked`. -/
theorem replica_of_step (h : g.step a = some g') :
    g'.path = g.path ∨ ∃ event, g'.path = Replica.occur g.path event
      ∧ (a = .path event ∨ ∃ d ∈ g.unasked, event = .deliver d.mutation d.written) := by
  rw [path_of_step h]
  -- What the act asks of the table decides; an event of the path is the other way in.
  cases hasked : g.asked? a with
  | none =>
    cases a with
    | path event => exact .inr ⟨event, rfl, .inl rfl⟩
    | worker _ | pass _ | client _ | control _ | closePool | clearPool | restart _ _ =>
      left
      simp only [pathAfter, hasked]
  | some asked =>
    obtain ⟨d, choice⟩ := asked
    have hunasked : d ∈ g.unasked := mem_unasked_iff.2 (waiting_of_asked? hasked)
    have hafter : g.pathAfter a = (Replica.deliver g.path d.mutation d.written choice).2 := by
      simp only [pathAfter, hasked]
      rfl
    -- A delivery the table refuses leaves it as it was; one it applies is the event `deliver`.
    rw [hafter]
    rcases Replica.deliver_cases g.path d.mutation d.written choice with hsame | happlied
    · exact .inl hsame
    · refine .inr ⟨_, ?_, .inr ⟨d, hunasked, rfl⟩⟩
      simp only [Replica.occur, happlied]
      rfl

/-- **A replica has a history:** after a run it is `after (before ++ later)`. -/
theorem exists_after_of_run {before : List ReplicaEvent} (h : g.path = Replica.after before)
    (hrun : g.run acts = some g') : ∃ later, g'.path = Replica.after (before ++ later) := by
  refine run_induction (I := fun _ g => ∃ later, g.path = Replica.after (before ++ later))
    ⟨[], by rw [List.append_nil, h]⟩ (fun _ _ hstep hbefore => ?_) hrun
  obtain ⟨later, hlater⟩ := hbefore
  rcases replica_of_step hstep with hsame | ⟨event, hoccurs, -⟩
  · exact ⟨later, hsame.trans hlater⟩
  · exact ⟨later ++ [event], by rw [hoccurs, hlater, ← List.append_assoc, Replica.after_concat]⟩

/-- **Behind a truncation of `t` at `at'`:** it is on record, and whatever was let through or has
    reached the table since is newer than it, or is in `through`. -/
structure Fenced (t : TableName) (at' : Timestamp) (through : Arrivals) (g : Journal replicaPath) :
    Prop where
  /-- The truncation is on record, or a later one. -/
  truncated : ∃ truncated, Replica.truncatedAt g.path t = some truncated ∧ at' ≤ truncated
  /-- What is in `letThrough` is newer, or in `through`. -/
  letThrough : ∀ x ∈ g.letThrough, x.1.table = t → at' < x.2 ∨ x ∈ through
  /-- So is what the table has accepted since. -/
  accepted : ∃ events, g.path = Replica.after events
    ∧ ∀ x ∈ Replica.since t events, x.1.table = t ∧ (at' < x.2 ∨ x ∈ through)

/-- `truncate` is a fence against everything that is not in `letThrough` before it. -/
theorem fenced_of_truncate {before : List ReplicaEvent} {r : Replica}
    (hpath : g.path = Replica.after before) (h : Replica.truncate g.path t at' = .ok r)
    (hstep : g.step (.path (.truncate t at')) = some g') : Fenced t at' g.letThrough g' := by
  obtain rfl := Option.some.inj hstep
  have hr : Replica.occur g.path (.truncate t at') = r := by simp only [Replica.occur, h]
  refine ⟨?_, fun x hx _ => .inr hx, before ++ [.truncate t at'], ?_, ?_⟩
  · show ∃ truncated, (Replica.occur g.path (.truncate t at')).truncatedAt t = _ ∧ _
    rw [hr]
    exact Replica.truncatedAt_truncate h
  · rw [Replica.after_concat, ← hpath]
    rfl
  · rw [Replica.since_truncate]
    simp

/-- **Every act keeps `Fenced`,** as long as nobody delivers past the journal. -/
theorem Fenced.step (h : Fenced t at' through g) (hstep : g.step a = some g')
    (honly : ∀ m written, a ≠ .path (.deliver m written)) : Fenced t at' through g' := by
  obtain ⟨truncated, htruncated, hlate⟩ := h.truncated
  obtain ⟨events, hevents, haccepted⟩ := h.accepted
  have hthrough : ∀ x ∈ g'.letThrough, x.1.table = t → at' < x.2 ∨ x ∈ through := by
    intro x hx ht
    rcases letThrough_of_step hstep hx with hbefore | huntruncated
    · exact h.letThrough x hbefore ht
    · -- Whatever is let through now is newer than the truncation on record.
      have hnewer := huntruncated truncated (by rw [ht]; exact htruncated)
      exact .inl (Timestamp.lt_of_not_le fun hle => hnewer (Timestamp.le_trans hle hlate))
  rcases replica_of_step hstep with hsame | ⟨event, hoccurs, hwho⟩
  · exact ⟨by rw [hsame]; exact h.truncated, hthrough, events, hsame.trans hevents, haccepted⟩
  · refine ⟨?_, hthrough, events ++ [event], ?_, fun x hx => ?_⟩
    · obtain ⟨later, hlater, hle⟩ := Replica.truncatedAt_occur event htruncated
      exact ⟨later, by rw [hoccurs]; exact hlater, Timestamp.le_trans hlate hle⟩
    · rw [hoccurs, hevents, Replica.after_concat]
    · rcases Replica.mem_since_concat hx with hbefore | ⟨m, written, rfl, rfl, ht⟩
      · exact haccepted x hbefore
      · rcases hwho with ha | ⟨d, hd, hdelivery⟩
        · exact absurd ha (honly m written)
        · obtain ⟨rfl, rfl⟩ := ReplicaEvent.deliver.inj hdelivery
          exact ⟨ht, h.letThrough _ (mem_letThrough_iff.2 (.inr ⟨d, hd, rfl⟩)) ht⟩

/-- **Every run keeps `Fenced`.** -/
theorem Fenced.run (h : Fenced t at' through g) (hrun : g.run acts = some g')
    (honly : ∀ m written, .path (.deliver m written) ∉ acts) : Fenced t at' through g' :=
  run_induction (I := fun _ g => Fenced t at' through g) h
    (fun ha _ hstep hbefore => hbefore.step hstep fun m written heq => honly m written (heq ▸ ha))
    hrun

/-- **After a truncation replay brings back nothing but what was let through before it.** Whatever
    happened until then, and however submissions, passes, workers and ends of the process follow one
    another after it: as long as nobody delivers past the journal, every cell of the table that can
    be read was written by a mutation of a batch that is newer than the truncation, or by one that a
    pass had found not to be truncated and that was not yet delivered when the truncation came. -/
theorem let_through_of_read {before : List ReplicaEvent} {r : Replica}
    (hpath : g.path = Replica.after before) (htruncate : Replica.truncate g.path t at' = .ok r)
    (hrun : g.run (.path (.truncate t at') :: acts) = some g')
    (honly : ∀ m written, .path (.deliver m written) ∉ acts)
    {key value : Bytes} {clustering column : String}
    (hread : Replica.read g'.path t key clustering column = some value) :
    ∃ m written, m.table = t ∧ m.key = key ∧ .upsert clustering column value ∈ m.edits
      ∧ (at' < written ∨ (m, written) ∈ g.letThrough) := by
  obtain ⟨g₁, hstep, hrest⟩ := Option.bind_eq_some_iff.1 hrun
  obtain ⟨events, hevents, haccepted⟩ :=
    ((fenced_of_truncate hpath htruncate hstep).run hrest honly).accepted
  rw [hevents] at hread
  obtain ⟨m, written, hmem, hkey, hedit⟩ := Replica.exists_of_read_after hread
  obtain ⟨ht, hwhy⟩ := haccepted _ hmem
  exact ⟨m, written, ht, hkey, hedit, hwhy⟩

/-- A truncation at `9` comes when the pass has let the mutation of a batch of `5` through and has
    not yet offered it to the pool: the value that is read afterwards had been let through. -/
theorem let_through_of_read_sorted :
    let t : TableName := ⟨"ks", "t"⟩
    let m : Mutation := ⟨t, [1], [.upsert "r" "c" [7]]⟩
    let e : Entry := ⟨default, ⟨5⟩, ⟨9⟩, []⟩
    let registry : Registry := .single ⟨⟨9⟩, "one", fun _ => .ok [], fun _ => .ok [m]⟩
    let settings : Settings := { Settings.standard with
      replayTimeout := 0, throttleKib := 0, workers := 1, queueDepth := 1 }
    let start : Journal replicaPath :=
      opened settings registry (.memory (Entries.empty.put e)) (.after [.createTable t]) []
    ∃ before after g g', start.run before = some g
      ∧ g.run (.path (.truncate t ⟨9⟩) :: after) = some g'
      ∧ g.letThrough = [(m, ⟨5⟩)]
      ∧ ∃ m' written, m'.table = t ∧ m'.key = [1] ∧ .upsert "r" "c" [7] ∈ m'.edits
        ∧ (⟨9⟩ < written ∨ (m', written) ∈ g.letThrough) := by
  intro t m e registry settings start
  let before : List (Act replicaPath) :=
    [.control (.board none), .pass (.begin 0), .pass .fetch, .pass (.consider ⟨9⟩), .pass .sort]
  let after : List (Act replicaPath) :=
    [.pass .sort, .pass .offer, .pass .insert, .pass (.rouse none), .pass .offer,
      .worker (.proceed 0), .worker (.apply 0 none)]
  -- The mutation is let through before the truncation and applied after it.
  have hmiddle : (start.run before).map (fun g => (g.letThrough, Replica.hasTable g.path t))
      = some ([(m, ⟨5⟩)], true) := by decide +kernel
  obtain ⟨g, hbefore, hg⟩ := Option.map_eq_some_iff.1 hmiddle
  obtain ⟨hletThrough, htable⟩ := Prod.mk.inj hg
  obtain ⟨r, htruncate⟩ := Replica.exists_truncate htable ⟨9⟩
  -- The table before the run is the one that `createTable` alone builds.
  have hstart : start.path = Replica.after [.createTable t] := rfl
  obtain ⟨events, hevents⟩ := exists_after_of_run hstart hbefore
  have hend : (g.run (.path (.truncate t ⟨9⟩) :: after)).map
      (fun g' => Replica.read g'.path t [1] "r" "c") = some (some [7]) := by
    have hwhole : ((start.run before).bind fun g => g.run (.path (.truncate t ⟨9⟩) :: after)).map
        (fun g' => Replica.read g'.path t [1] "r" "c") = some (some [7]) := by decide +kernel
    rwa [hbefore] at hwhole
  obtain ⟨g', hafter, hread⟩ := Option.map_eq_some_iff.1 hend
  refine ⟨before, after, g, g', hbefore, hafter, hletThrough, ?_⟩
  refine let_through_of_read hevents htruncate hafter ?_ hread
  intro m' written
  simp [after]

/-- **Truncated data comes back:** a mutation of a batch of `5` is queued by an attempt that then
    times out, the table is truncated at `9`, and the worker that comes to the job delivers it. -/
theorem resurfaces :
    let t : TableName := ⟨"ks", "t"⟩
    let m : Mutation := ⟨t, [1], [.upsert "r" "c" [7]]⟩
    let e : Entry := ⟨default, ⟨5⟩, ⟨9⟩, []⟩
    let registry : Registry := .single ⟨⟨9⟩, "one", fun _ => .ok [], fun _ => .ok [m]⟩
    let settings : Settings := { Settings.standard with
      replayTimeout := 0, throttleKib := 0, workers := 1, queueDepth := 1 }
    let start : Journal replicaPath :=
      opened settings registry (.memory (Entries.empty.put e)) (.after [.createTable t]) []
    ∃ attempt later : List (Act replicaPath), ∃ g g' r,
      start.run attempt = some g ∧ Replica.truncate g.path t ⟨9⟩ = .ok r
      ∧ g.run (.path (.truncate t ⟨9⟩) :: later) = some g'
      ∧ (∀ m' written, .path (.deliver m' written) ∉ attempt ++ later)
      ∧ e.written ≤ ⟨9⟩
      ∧ Replica.read r t [1] "r" "c" = none
      ∧ Replica.read g'.path t [1] "r" "c" = some [7] := by
  intro t m e registry settings start
  -- The attempt times out with its mutation still queued, and the entry is kept.
  let attempt : List (Act replicaPath) :=
    [.control (.board none), .pass (.begin 0), .pass .fetch, .pass (.consider ⟨9⟩), .pass .sort,
      .pass .sort, .pass .offer, .pass .insert, .pass (.rouse none), .pass .offer,
      .pass (.expire 100), .pass .countFailure, .pass .fetch]
  let later : List (Act replicaPath) := [.worker (.proceed 0), .worker (.apply 0 none)]
  -- The truncation is seen to empty the table before the leftover job runs.
  have hempty : (start.run attempt).map (fun g => (Replica.hasTable g.path t,
      (Replica.occur g.path (.truncate t ⟨9⟩)).read t [1] "r" "c")) = some (true, none) := by
    decide +kernel
  obtain ⟨g, hattempt, hg⟩ := Option.map_eq_some_iff.1 hempty
  obtain ⟨htable, hnone⟩ := Prod.mk.inj hg
  obtain ⟨r, htruncate⟩ := Replica.exists_truncate htable ⟨9⟩
  simp only [Replica.occur, htruncate] at hnone
  have hend : (g.run (.path (.truncate t ⟨9⟩) :: later)).map
      (fun g' => Replica.read g'.path t [1] "r" "c") = some (some [7]) := by
    have hwhole : ((start.run attempt).bind fun g => g.run (.path (.truncate t ⟨9⟩) :: later)).map
        (fun g' => Replica.read g'.path t [1] "r" "c") = some (some [7]) := by decide +kernel
    rwa [hattempt] at hwhole
  obtain ⟨g', hlater, hread⟩ := Option.map_eq_some_iff.1 hend
  refine ⟨attempt, later, g, g', r, hattempt, htruncate, hlater, ?_, by decide, hnone, hread⟩
  intro m' written
  simp [attempt, later]

end replica

end Journal

end BatchJournal
