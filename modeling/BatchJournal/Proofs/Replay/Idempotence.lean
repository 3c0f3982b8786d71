import BatchJournal.Proofs.Journal.Handing
import BatchJournal.Proofs.Journal.Storing
import BatchJournal.Proofs.Replica.LastWrite

namespace BatchJournal

/-!
# Replay is idempotent

A journal delivers the same mutations over and over: attempts fail half way, answers come too late,
processes die between the delivery of an entry and its deletion, and entries are put in again.  A
replica behind its write path takes all of it for one delivery of each mutation, since every
delivery carries the time of its batch.

* `WritePath.Front` — a write path in front of a replica, whatever it does beside delivering.
* `WritePath.Front.arrivals` — what a run brings to the replica.
* `Journal.Mirror` — during any run the replica holds mutations of the batches and nothing else.
* `Journal.agree_of_replays` — once each of them has arrived, the replica shows what one delivery
  shows.
-/

/-! ### Write paths in front of a replica -/

/-- **A write path in front of a replica:** each delivery is carried out by `Replica.apply` or
    leaves the replica as it is, whatever is answered. -/
structure WritePath.Front (W : WritePath) where
  /-- The replica. -/
  replica : W.State → Replica
  /-- A delivery is carried out or not. -/
  carried (choice : W.Choice) (s : W.State) (m : Mutation) (written : Timestamp) :
    replica (W.apply choice s m written).2 = replica s
      ∨ (replica s).apply m written = .ok (replica (W.apply choice s m written).2)

/-- A replica carries `m` out whatever the mishap, or is left as it is. -/
theorem Replica.deliver_cases (r : Replica) (m : Mutation) (written : Timestamp)
    (mishap : Option Mishap) :
    (r.deliver m written mishap).2 = r ∨ r.apply m written = .ok (r.deliver m written mishap).2 := by
  cases mishap with
  | some mishap => cases mishap <;> exact .inl rfl
  | none =>
    simp only [deliver]
    cases r.apply m written with
    | ok r' => exact .inr rfl
    | error e => exact .inl rfl

/-- A replica as a write path is in front of itself. -/
def replicaFront : replicaPath.Front where
  replica r := r
  carried mishap r m written := r.deliver_cases m written mishap

namespace WritePath.Front

variable {W : WritePath}

/-- **What an act brings to the replica:** the mutation that the write path is asked for, if
    `applied` counts one more afterwards. -/
def arrival? (F : W.Front) (g : Journal W) (a : Act W) : Option (Mutation × Timestamp) :=
  (g.asked? a).bind fun (d, _) =>
    if (F.replica g.path).applied < (F.replica (g.pathAfter a)).applied then
      some (d.mutation, d.written)
    else none

/-- What a run brings to the replica, one `arrival?` after the other. -/
def arrivals (F : W.Front) (g : Journal W) (acts : List (Act W)) : Arrivals :=
  g.along F.arrival? acts

variable {F : W.Front} {g g' : Journal W} {acts : List (Act W)} {a : Act W}

/-- What a replica applies it counts in `applied`. -/
theorem applied_of_apply {r r' : Replica} {m : Mutation} {written : Timestamp}
    (h : r.apply m written = .ok r') : r'.applied = r.applied + 1 := by
  unfold Replica.apply at h
  split at h
  · rw [← Except.ok.inj h]
  · simp at h

/-- An act that asks the write path for a delivery leaves the replica, or has it `apply` the
    mutation. -/
theorem replica_of_asked {d : Delivery} {choice : W.Choice} (h : g.asked? a = some (d, choice)) :
    F.replica (g.pathAfter a) = F.replica g.path ∧ F.arrival? g a = none
      ∨ (F.replica g.path).apply d.mutation d.written = .ok (F.replica (g.pathAfter a))
        ∧ F.arrival? g a = some (d.mutation, d.written) := by
  have hafter : g.pathAfter a = (W.apply choice g.path d.mutation d.written).2 := by
    simp only [Journal.pathAfter, h]
  rcases F.carried choice g.path d.mutation d.written with hsame | happlied
  · left
    rw [← hafter] at hsame
    exact ⟨hsame, by simp [arrival?, h, hsame]⟩
  · right
    rw [← hafter] at happlied
    exact ⟨happlied, by simp [arrival?, h, applied_of_apply happlied]⟩

end WritePath.Front

namespace Journal

variable {W : WritePath} {start g g' : Journal W} {acts : List (Act W)} {a : Act W} {e : Entry}

/-! ### The replica during a run -/

/-- The mutations of `batches`, each with the time of its batch. -/
def mutationsOf (batches : List (Entry × List Mutation)) : Arrivals :=
  batches.flatMap fun b => b.2.map fun m => (m, b.1.written)

/-- Deliveries of mutations past any journal, as events. -/
def direct (arrivals : Arrivals) : List ReplicaEvent := arrivals.map fun a => .deliver a.1 a.2

/-- **What a run leaves in the replica:** only `batches` are stored, in hand or under way, and the
    replica is as after `direct` deliveries of mutations of theirs, those that the run brought to it
    among them. -/
structure Mirror (F : W.Front) (tables : List TableName) (batches : List (Entry × List Mutation))
    (start : Journal W) (acts : List (Act W)) (g : Journal W) : Prop where
  /-- The store is sound. -/
  sound : g.store.Sound
  /-- The formats are the same. -/
  registry : g.registry = start.registry
  /-- What is in hand is decoded. -/
  decoded : g.Decoded
  /-- Only `batches` are stored. -/
  stored : ∀ id e, g.entries.get? id = some e → ∃ ms, (e, ms) ∈ batches
  /-- Only a batch is in hand. -/
  held : ∀ e, g.inHand? = some e → ∃ ms, (e, ms) ∈ batches
  /-- Only mutations of `batches` are under way. -/
  underWay : ∀ d ∈ g.deliveries, (d.mutation, d.written) ∈ mutationsOf batches
  /-- The replica has `arrivals` of theirs and nothing else. -/
  replica : ∃ arrivals, F.replica g.path = .after (tables.map .createTable ++ direct arrivals)
    ∧ (∀ a ∈ arrivals, a ∈ mutationsOf batches) ∧ ∀ a ∈ F.arrivals start acts, a ∈ arrivals

variable {F : W.Front} {tables : List TableName} {batches : List (Entry × List Mutation)}

/-- A mutation that `Belongs` to an entry of `batches` is in `mutationsOf` them. -/
theorem mem_mutationsOf {m : Mutation} {ms : List Mutation}
    (hdecode : ∀ b ∈ batches, g.registry.decode b.1.version b.1.payload = .ok b.2)
    (hbatch : (e, ms) ∈ batches) (hm : g.Belongs m e) : (m, e.written) ∈ mutationsOf batches := by
  obtain ⟨ms', hms', hmem⟩ := hm
  obtain rfl := Except.ok.inj ((hdecode _ hbatch).symm.trans hms')
  exact List.mem_flatMap.2 ⟨_, hbatch, List.mem_map.2 ⟨m, hmem, rfl⟩⟩

/-- A replica takes one more `direct` delivery. -/
theorem after_direct_concat {r' : Replica} {arrivals : Arrivals} {m : Mutation} {written : Timestamp}
    (h : (Replica.after (tables.map .createTable ++ direct arrivals)).apply m written = .ok r') :
    r' = .after (tables.map .createTable ++ direct (arrivals ++ [(m, written)])) := by
  have hdirect : direct (arrivals ++ [(m, written)]) = direct arrivals ++ [.deliver m written] := by
    simp [direct]
  rw [hdirect, ← List.append_assoc, Replica.after_concat]
  simp only [Replica.occur, h]

/-- **Every act keeps `Mirror`,** as long as only `batches` are put into the store and others only
    deliver mutations of theirs. -/
theorem Mirror.step (h : Mirror F tables batches start acts g) (hrun : start.run acts = some g)
    (hdecode : ∀ b ∈ batches, start.registry.decode b.1.version b.1.payload = .ok b.2)
    (hentry : ∀ e, a.entry? start.registry = some e → ∃ ms, (e, ms) ∈ batches)
    (hevent : ∀ event, a = .path event → ∀ s, F.replica (W.occur event s) = F.replica s
      ∨ ∃ m written, (m, written) ∈ mutationsOf batches
        ∧ (F.replica s).apply m written = .ok (F.replica (W.occur event s)))
    (hstep : g.step a = some g') : Mirror F tables batches start (acts ++ [a]) g' := by
  have hregistry := (registry_of_step hstep).trans h.registry
  obtain ⟨hsound, -⟩ := effect_of_step h.sound hstep
  rw [← h.registry] at hdecode hentry
  refine ⟨hsound, hregistry, h.decoded.step hstep, fun id e hget => ?_, fun e he => ?_,
    fun d hd => ?_, ?_⟩
  · rcases stored_of_step h.sound hstep hget with hbefore | ⟨hdoing, -⟩
    · exact h.stored id e hbefore
    · exact hentry e (entry?_of_doing? h.sound hdoing)
  · rcases inHand?_of_step hstep he with hbefore | ⟨-, hget⟩
    · exact h.held e hbefore
    · exact h.stored _ e hget
  · rcases delivery_of_step hstep hd with hbefore | ⟨e, hhanded⟩
    · exact h.underWay d hbefore
    · -- Every attempt hands out the mutations of a batch at the time of the batch.
      obtain ⟨he, hwritten, hbelongs⟩ := handed_spec h.decoded hhanded
      obtain ⟨ms, hbatch⟩ := h.held e he
      rw [hwritten]
      exact mem_mutationsOf hdecode hbatch hbelongs
  · -- The replica changes by a delivery of the journal or by somebody else's, or not at all.
    obtain ⟨arrivals, hreplica, hbatch, harrived⟩ := h.replica
    rw [path_of_step hstep, WritePath.Front.arrivals, along_concat hrun]
    cases hasked : g.asked? a with
    | none =>
      have hnone : F.arrival? g a = none := by simp [WritePath.Front.arrival?, hasked]
      rw [hnone, Option.toList_none, List.append_nil]
      cases a with
      | path event =>
        have hafter : g.pathAfter (.path event) = W.occur event g.path := rfl
        rw [hafter]
        rcases hevent event rfl g.path with hsame | ⟨m, written, hmem, happlied⟩
        · exact ⟨arrivals, hsame.trans hreplica, hbatch, harrived⟩
        · rw [hreplica] at happlied
          refine ⟨_, after_direct_concat happlied, ?_, fun a ha =>
            List.mem_append_left _ (harrived a ha)⟩
          exact List.forall_mem_append.2 ⟨hbatch, List.forall_mem_singleton.2 hmem⟩
      | worker _ | pass _ | client _ | control _ | closePool | clearPool | restart _ _ =>
        refine ⟨arrivals, ?_, hbatch, harrived⟩
        simpa only [pathAfter, hasked] using hreplica
    | some asked =>
      -- A delivery that others see as failed or late may have been carried out all the same.
      obtain ⟨d, choice⟩ := asked
      rcases WritePath.Front.replica_of_asked hasked with ⟨hsame, hnone⟩ | ⟨happlied, hsome⟩
      · rw [hnone, Option.toList_none, List.append_nil]
        exact ⟨arrivals, hsame.trans hreplica, hbatch, harrived⟩
      · rw [hreplica] at happlied
        have hmem := h.underWay d (mem_deliveries_of_asked? hasked)
        rw [hsome]
        refine ⟨_, after_direct_concat happlied, ?_, ?_⟩
        · exact List.forall_mem_append.2 ⟨hbatch, List.forall_mem_singleton.2 hmem⟩
        · exact List.forall_mem_append.2 ⟨fun a ha => List.mem_append_left _ (harrived a ha),
            List.forall_mem_singleton.2 (List.mem_append_right _ (List.mem_singleton_self _))⟩

/-- **Every run keeps `Mirror`.** -/
theorem mirror_of_run (hstart : Mirror F tables batches start [] start)
    (hdecode : ∀ b ∈ batches, start.registry.decode b.1.version b.1.payload = .ok b.2)
    (hentry : ∀ a ∈ acts, ∀ e, a.entry? start.registry = some e → ∃ ms, (e, ms) ∈ batches)
    (hevent : ∀ event, .path event ∈ acts → ∀ s, F.replica (W.occur event s) = F.replica s
      ∨ ∃ m written, (m, written) ∈ mutationsOf batches
        ∧ (F.replica s).apply m written = .ok (F.replica (W.occur event s)))
    (hrun : start.run acts = some g) : Mirror F tables batches start acts g :=
  run_induction hstart
    (fun ha hearlier hstep h =>
      h.step hearlier hdecode (hentry _ ha) (fun event heq => hevent event (heq ▸ ha)) hstep)
    hrun

/-! ### One delivery of each mutation -/

/-- A table that was just created has `accepted` nothing. -/
theorem accepted_created (t : TableName) (tables : List TableName) :
    Replica.accepted t (tables.map .createTable) = if t ∈ tables then some [] else none := by
  induction tables using List.reverseRecOn with
  | nil => rfl
  | append_singleton tables t' ih =>
    rw [List.map_append, List.map_singleton, Replica.accepted_concat, ih]
    by_cases heq : t' = t
    · by_cases ht : t ∈ tables <;> simp [Replica.accept, heq, ht]
    · simp [Replica.accept, heq, Ne.symm heq]

/-- What a table has accepted from `direct` deliveries. -/
theorem since_direct (t : TableName) (tables : List TableName) (arrivals : Arrivals) :
    Replica.since t (tables.map .createTable ++ direct arrivals)
      = if t ∈ tables then arrivals.filter fun a => a.1.table = t else [] := by
  have haccepted : Replica.accepted t (tables.map .createTable ++ direct arrivals)
      = if t ∈ tables then some (arrivals.filter fun a => a.1.table = t) else none := by
    induction arrivals using List.reverseRecOn with
    | nil => simpa [direct] using accepted_created t tables
    | append_singleton arrivals a ih =>
      have hdirect : direct (arrivals ++ [a]) = direct arrivals ++ [.deliver a.1 a.2] := by
        simp [direct]
      rw [hdirect, ← List.append_assoc, Replica.accepted_concat, ih]
      by_cases heq : a.1.table = t
      · by_cases ht : t ∈ tables <;> simp [Replica.accept, heq, ht]
      · simp [Replica.accept, heq]
  rw [Replica.since, haccepted]
  split <;> rfl

/-- **Replay is idempotent.** A journal is opened over stored batches and over a replica with fresh
    tables, and then anything may happen: passes in any number and order, deliveries that fail or
    are late, ends of the process between a delivery and the deletion of its entry, batches put in
    anew. As soon as every mutation of every batch has arrived, every table shows what it shows
    after one direct delivery of each mutation, in any order. -/
theorem agree_of_replays {settings : Settings} {registry : Registry} {medium left : Medium}
    {directory : String} {options : StoreOptions} {store : Store} {warnings : List Warning}
    {path : W.State} (hfresh : F.replica path = .after (tables.map .createTable))
    (hopen : medium.openWith directory options = (.ok (store, warnings), left))
    (hstored : ∀ id e, store.entries.get? id = some e → ∃ ms, (e, ms) ∈ batches)
    (hdecode : ∀ b ∈ batches, registry.decode b.1.version b.1.payload = .ok b.2)
    (hrun : (opened settings registry store path [] : Journal W).run acts = some g)
    (hentry : ∀ a ∈ acts, ∀ e, a.entry? registry = some e → ∃ ms, (e, ms) ∈ batches)
    (hevent : ∀ event, .path event ∈ acts → ∀ s, F.replica (W.occur event s) = F.replica s
      ∨ ∃ m written, (m, written) ∈ mutationsOf batches
        ∧ (F.replica s).apply m written = .ok (F.replica (W.occur event s)))
    (hall : ∀ a ∈ mutationsOf batches, a ∈ F.arrivals (opened settings registry store path []) acts)
    {order : Arrivals} (horder : order.Perm (mutationsOf batches)) (t : TableName) :
    (F.replica g.path).Agree (.after (tables.map .createTable ++ direct order)) t := by
  have hstart : Mirror F tables batches (opened settings registry store path []) []
      (opened settings registry store path [] : Journal W) :=
    { sound := Store.sound_of_openWith hopen
      registry := rfl
      decoded := fun p hp => by simp [opened] at hp
      stored := hstored
      held := fun e he => by simp [opened, inHand?] at he
      underWay := fun d hd => by simp [opened, deliveries, Pool.jobs_start] at hd
      replica := ⟨[], by rw [direct, List.map_nil, List.append_nil]; exact hfresh, by simp,
        by simp [WritePath.Front.arrivals, along]⟩ }
  obtain ⟨arrivals, hreplica, hbatch, harrived⟩ :=
    (mirror_of_run hstart hdecode hentry hevent hrun).replica
  rw [hreplica]
  apply Replica.agree_after
  apply Arrivals.Alike.of_mem_iff
  -- Each mutation of a batch has arrived, and nothing else.
  have hmem (a : Mutation × Timestamp) : a ∈ arrivals ↔ a ∈ order :=
    ⟨fun ha => horder.mem_iff.2 (hbatch a ha), fun ha => harrived a (hall a (horder.mem_iff.1 ha))⟩
  intro a
  rw [since_direct, since_direct]
  split
  · simp only [List.mem_filter, hmem]
  · rfl

/-- A batch that is delivered, then put in anew before the process dies, and delivered again by the
    journal that is opened then, arrives twice and shows once. -/
theorem agree_of_replays_again :
    let t : TableName := ⟨"ks", "t"⟩
    let m : Mutation := ⟨t, [1], [.upsert "r" "c" [7]]⟩
    let e : Entry := ⟨default, ⟨5⟩, ⟨9⟩, []⟩
    let registry : Registry := .single ⟨⟨9⟩, "one", fun _ => .ok [], fun _ => .ok [m]⟩
    let settings : Settings := { Settings.standard with
      replayTimeout := 0, throttleKib := 0, workers := 1, queueDepth := 1 }
    let start : Journal replicaPath :=
      opened settings registry (.memory (Entries.empty.put e)) (.after [.createTable t]) []
    ∃ acts g, start.run acts = some g
      ∧ replicaFront.arrivals start acts = [(m, ⟨5⟩), (m, ⟨5⟩)]
      ∧ g.pending = 0
      ∧ ∀ t', (replicaFront.replica g.path).Agree (.after [.createTable t, .deliver m ⟨5⟩]) t' := by
  intro t m e registry settings start
  let pass : List (Act replicaPath) :=
    [.control (.board none), .pass (.begin 0), .pass .fetch, .pass (.consider ⟨9⟩), .pass .sort,
      .pass .sort, .pass .offer, .pass .insert, .pass (.rouse none), .pass .offer,
      .worker (.proceed 0), .worker (.apply 0 none), .worker (.report 0), .pass .collect]
  -- The entry is put again after the first pass died, so its mutation arrives twice.
  let acts : List (Act replicaPath) :=
    pass ++ [.client (.put e none), .restart "" .died] ++ pass ++ [.pass (.delete none)]
  have hopen : (Medium.memory (Entries.empty.put e)).openWith "" ⟨.always, .zero, 0, default⟩
      = (.ok (.memory _, []), .memory _) := rfl
  have hend : (start.run acts).map pending = some 0 := by decide +kernel
  obtain ⟨g, hrun, hpending⟩ := Option.map_eq_some_iff.1 hend
  have harrivals : replicaFront.arrivals start acts = [(m, ⟨5⟩), (m, ⟨5⟩)] := by decide +kernel
  have hputs : acts.filterMap (Act.entry? registry) = [e] := rfl
  refine ⟨acts, g, hrun, harrivals, hpending, fun t' => ?_⟩
  refine @agree_of_replays replicaPath g acts replicaFront [t] [(e, [m])] settings registry _ _ ""
    _ _ _ _ rfl hopen ?_ ?_ hrun ?_ ?_ ?_ [(m, ⟨5⟩)] (.refl _) t'
  · -- The store at the start holds the one entry of the table.
    intro id e' hget
    have hget : (Entries.empty.put e).get? id = some e' := hget
    rw [Entries.get?_put] at hget
    split at hget
    · obtain rfl := Option.some.inj hget
      exact ⟨_, List.mem_singleton_self _⟩
    · simp [Entries.get?, Entries.empty] at hget
  · exact List.forall_mem_singleton.2 rfl
  · -- The only entry the run puts is the same one again.
    intro a ha e' he
    have hmem : e' ∈ acts.filterMap (Act.entry? registry) := List.mem_filterMap.2 ⟨a, ha, he⟩
    rw [hputs, List.mem_singleton] at hmem
    exact ⟨[m], by simp [hmem]⟩
  · intro event hevent
    simp [acts, pass] at hevent
  · show ∀ a ∈ mutationsOf [(e, [m])], a ∈ replicaFront.arrivals start acts
    rw [harrivals]
    simp [mutationsOf, e]

end Journal

end BatchJournal
