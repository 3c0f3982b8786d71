import BatchJournal.Proofs.Replica.Precedence
import BatchJournal.Proofs.Replica.Reading
import BatchJournal.Replay.WritePath

namespace BatchJournal

/-!
# The last write wins

What a replica shows is a function of what its tables accepted since their last truncation, and of
that only which mutations at which times: neither their order counts, nor how often each arrived,
nor the order of the edits in one.

* `Replica.since` — what a table accepted since its last truncation.
* `Replica.reflects_after` — a replica holds, in every partition, exactly the edits so accepted.
* `Replica.last_write_wins` — what can be read after any sequence of events.
-/

/-- Mutations with the times they were written at. -/
abbrev Arrivals := List (Mutation × Timestamp)

namespace Arrivals

/-- The edits of the partition under `key`. -/
def edits (key : Bytes) (arrivals : Arrivals) : Edits :=
  (arrivals.filter fun a => a.1.key = key).flatMap fun a => a.1.edits.map fun e => (e, a.2)

theorem mem_edits_iff {key : Bytes} {arrivals : Arrivals} {e : Edit} {written : Timestamp} :
    (e, written) ∈ arrivals.edits key
      ↔ ∃ m, (m, written) ∈ arrivals ∧ m.key = key ∧ e ∈ m.edits := by
  simp only [edits, List.mem_flatMap, List.mem_filter, List.mem_map, decide_eq_true_eq, Prod.mk.injEq]
  constructor
  · rintro ⟨⟨m, _⟩, ⟨hmem, hkey⟩, _, hedit, rfl, rfl⟩
    exact ⟨m, hmem, hkey, hedit⟩
  · rintro ⟨m, hmem, hkey, hedit⟩
    exact ⟨(m, written), ⟨hmem, hkey⟩, e, hedit, rfl, rfl⟩

theorem edits_concat (key : Bytes) (arrivals : Arrivals) (m : Mutation) (written : Timestamp) :
    Arrivals.edits key (arrivals ++ [(m, written)]) =
      arrivals.edits key ++ if m.key = key then m.edits.map fun e => (e, written) else [] := by
  by_cases h : m.key = key <;> simp [edits, h]

/-- Each arrival is among `others` too, at its time and with its edits, in whatever order. -/
def Among (arrivals others : Arrivals) : Prop :=
  ∀ m written, (m, written) ∈ arrivals
    → ∃ edits, m.edits.Perm edits ∧ ({ m with edits }, written) ∈ others

/-- **Two lists of arrivals are alike:** each is `Among` the other, so they differ in the order of
    the arrivals, in how often one is repeated and in the order of the edits in one. -/
def Alike (arrivals others : Arrivals) : Prop := arrivals.Among others ∧ others.Among arrivals

/-- Lists with the same members are `Alike`, and so are one list and a permutation of it. -/
theorem Alike.of_mem_iff {arrivals others : Arrivals} (h : ∀ a, a ∈ arrivals ↔ a ∈ others) :
    arrivals.Alike others :=
  ⟨fun m _ hm => ⟨m.edits, .refl _, (h _).1 hm⟩, fun m _ hm => ⟨m.edits, .refl _, (h _).2 hm⟩⟩

/-- Lists that are `Alike` have the same `edits`. -/
theorem Alike.mem_edits_iff {arrivals others : Arrivals} (h : arrivals.Alike others) (key : Bytes)
    (a : Edit × Timestamp) : a ∈ arrivals.edits key ↔ a ∈ others.edits key := by
  -- A permutation of the edits of an arrival has the same members.
  have hamong {l l' : Arrivals} (h : l.Among l') (ha : a ∈ l.edits key) : a ∈ l'.edits key := by
    obtain ⟨m, hmem, hkey, hedit⟩ := Arrivals.mem_edits_iff.1 ha
    obtain ⟨edits, hperm, hmem'⟩ := h m a.2 hmem
    exact Arrivals.mem_edits_iff.2 ⟨_, hmem', hkey, hperm.mem_iff.1 hedit⟩
  exact ⟨hamong h.1, hamong h.2⟩

end Arrivals

theorem Partition.after_append_map (edits : Edits) (more : List Edit) (written : Timestamp) :
    after (edits ++ more.map fun e => (e, written)) =
      more.foldl (·.edit written ·) (after edits) := by
  simp [after, List.foldl_map]

/-- **A partition shows the same after the same edits,** in whatever order and however often. -/
theorem Partition.read_after_congr {edits edits' : Edits} (h : ∀ a, a ∈ edits ↔ a ∈ edits')
    (slot : Slot) : (after edits).read slot = (after edits').read slot := by
  have hcells (c : Cell) : c ∈ edits.cells slot ↔ c ∈ edits'.cells slot := by
    simp only [Edits.cells, List.mem_filterMap, h]
  have hdeletions (d : Timestamp) : d ∈ edits.deletions ↔ d ∈ edits'.deletions := by
    simp only [Edits.deletions, List.mem_filterMap, h]
  apply Option.ext
  intro value
  rw [read_after, read_after]
  simp only [Cell.Greatest, hcells, hdeletions]

namespace Replica

/-- A replica after a sequence of events, from the empty one. -/
def after (events : List ReplicaEvent) : Replica := events.foldl occur empty

theorem after_concat (events : List ReplicaEvent) (e : ReplicaEvent) :
    after (events ++ [e]) = (after events).occur e := by
  simp [after]

/-! ### What a table accepts -/

/-- What a table has accepted after one more event; `none` stands for a table that does not
    exist. -/
def accept (t : TableName) (accepted : Option Arrivals) : ReplicaEvent → Option Arrivals
  | .createTable t' => if t' = t then some (accepted.getD []) else accepted
  | .truncate t' _ => if t' = t then accepted.map fun _ => [] else accepted
  | .deliver m written =>
    if m.table = t then accepted.map fun arrivals => arrivals ++ [(m, written)] else accepted

/-- What a table has accepted since its last truncation, if it exists. -/
def accepted (t : TableName) (events : List ReplicaEvent) : Option Arrivals :=
  events.foldl (accept t) none

/-- **What a table accepted since its last truncation,** nothing if it does not exist. -/
def since (t : TableName) (events : List ReplicaEvent) : Arrivals := (accepted t events).getD []

theorem accepted_concat (t : TableName) (events : List ReplicaEvent) (e : ReplicaEvent) :
    accepted t (events ++ [e]) = accept t (accepted t events) e := by
  simp [accepted]

/-- A table exists once it was created: `accepted` is `some`. -/
theorem isSome_accepted_iff {t : TableName} {events : List ReplicaEvent} :
    (accepted t events).isSome = true ↔ .createTable t ∈ events := by
  induction events using List.reverseRecOn with
  | nil => simp [accepted]
  | append_singleton events e ih =>
    -- By the last event: only creating `t` itself opens its list, and nothing closes it.
    rw [accepted_concat, List.mem_append, ← ih, List.mem_singleton]
    cases e with
    | createTable t' =>
      simp only [accept, ReplicaEvent.createTable.injEq]
      split
      · rename_i h
        simp [h]
      · rename_i h
        simp [Ne.symm h]
    | truncate t' at' =>
      simp only [accept, reduceCtorEq, or_false]
      split <;> simp
    | deliver m written =>
      simp only [accept, reduceCtorEq, or_false]
      split <;> simp

/-! ### What a replica holds -/

/-- The replica has the tables that `accepted` tells of, and in every partition what its table
    accepted. -/
structure Reflects (r : Replica) (accepted : TableName → Option Arrivals) : Prop where
  /-- The tables. -/
  tables : ∀ t, r.hasTable t = (accepted t).isSome
  /-- The partitions. -/
  partitions : ∀ t key, r.partition t key = .after (((accepted t).getD []).edits key)

theorem Reflects.createTable {r : Replica} {accepted : TableName → Option Arrivals}
    (h : r.Reflects accepted) (t' : TableName) :
    (r.createTable t').Reflects fun t => accept t (accepted t) (.createTable t') := by
  refine ⟨fun t => ?_, fun t key => ?_⟩
  · -- `createTable` on a table that is there changes nothing, which is the first branch.
    have hexists : (r.createTable t').hasTable t = (r.hasTable t || decide (t = t')) := by
      unfold Replica.createTable
      split
      · rename_i hhas
        by_cases heq : t = t'
        · rw [heq, hhas]
          rfl
        · simp [heq]
      · simp only [hasTable, OrderedMap.contains, OrderedMap.get?_insert]
        by_cases heq : t = t'
        · simp [heq]
        · simp [heq]
    rw [hexists, h.tables, accept]
    by_cases heq : t' = t
    · simp [heq]
    · simp [heq, Ne.symm heq]
  · -- No partition is touched either way.
    have hsame : (r.createTable t').partition t key = r.partition t key := by
      unfold Replica.createTable
      split <;> rfl
    rw [hsame, h.partitions, accept]
    split <;> simp

theorem Reflects.truncate {r r' : Replica} {accepted : TableName → Option Arrivals}
    (h : r.Reflects accepted) {t' : TableName} {at' : Timestamp} (hr : r.truncate t' at' = .ok r') :
    r'.Reflects fun t => accept t (accepted t) (.truncate t' at') := by
  unfold Replica.truncate at hr
  cases hformer : r.tables.get? t' with
  | none => simp [hformer] at hr
  | some former =>
    simp only [hformer, Except.ok.injEq] at hr
    subst hr
    have hhas : r.hasTable t' = true := by simp [hasTable, OrderedMap.contains, hformer]
    refine ⟨fun t => ?_, fun t key => ?_⟩
    · have hexists : (r.tables.insert t' (some ((former.map (·.latest at')).getD at'))).contains t
          = r.hasTable t := by
        simp only [hasTable, OrderedMap.contains, OrderedMap.get?_insert]
        by_cases heq : t = t'
        · simp [heq, hformer]
        · simp [heq]
      rw [hasTable, hexists, h.tables, accept]
      split <;> simp
    · have hkept := h.partitions t key
      simp only [partition, OrderedMap.get?_filter] at hkept ⊢
      by_cases heq : t = t'
      · -- The table has neither partitions nor accepted mutations left.
        subst heq
        cases accepted t <;> simp [accept, Arrivals.edits, Partition.after]
      · simp only [accept, Ne.symm heq, if_false, ← hkept]
        cases r.partitions.get? ⟨t, key⟩ <;> simp [Option.filter, heq]

theorem Reflects.apply {r r' : Replica} {accepted : TableName → Option Arrivals}
    (h : r.Reflects accepted) {m : Mutation} {written : Timestamp}
    (hr : r.apply m written = .ok r') :
    r'.Reflects fun t => accept t (accepted t) (.deliver m written) := by
  unfold Replica.apply at hr
  split at hr
  · rename_i hhas
    obtain rfl := Except.ok.inj hr
    refine ⟨fun t => ?_, fun t key => ?_⟩
    · rw [accept]
      split <;> simpa [hasTable] using h.tables t
    · have hbefore := h.partitions t key
      rw [accept]
      simp only [partition, OrderedMap.get?_insert, PartitionKey.mk.injEq] at hbefore ⊢
      by_cases heq : m.table = t
      · -- The table exists, so its list of accepted mutations grows by this one.
        obtain ⟨arrivals, harrivals⟩ := Option.isSome_iff_exists.1 (heq ▸ (h.tables m.table) ▸ hhas)
        rw [if_pos heq, harrivals, Option.map_some, Option.getD_some, Arrivals.edits_concat]
        rw [harrivals, Option.getD_some] at hbefore
        by_cases hkey : m.key = key
        · rw [if_pos hkey, if_pos ⟨heq.symm, hkey.symm⟩, Partition.after_append_map, ← hbefore, heq,
            hkey]
          rfl
        · rw [if_neg hkey, List.append_nil, if_neg fun hboth => hkey hboth.2.symm, hbefore]
      · rw [if_neg heq, if_neg fun hboth => heq hboth.1.symm, hbefore]
  · simp at hr

/-- **One more event** keeps `Reflects`, with `accept` for each table. -/
theorem Reflects.occur {r : Replica} {accepted : TableName → Option Arrivals}
    (h : r.Reflects accepted) (e : ReplicaEvent) :
    (r.occur e).Reflects fun t => accept t (accepted t) e := by
  -- What is refused is an event of a table that has no list of accepted mutations to change.
  have hunknown {t' t : TableName} {change : Arrivals → Arrivals} (hhas : r.hasTable t' = false) :
      (if t' = t then (accepted t).map change else accepted t) = accepted t := by
    split
    · rename_i heq
      have hnone : accepted t = none := by
        rw [heq, h.tables] at hhas
        simpa using hhas
      rw [hnone, Option.map_none]
    · rfl
  cases e with
  | createTable t' => exact h.createTable t'
  | truncate t' at' =>
    cases hr : r.truncate t' at' with
    | ok r' => simpa only [Replica.occur, hr] using h.truncate hr
    | error err =>
      have hhas : r.hasTable t' = false := by
        unfold Replica.truncate at hr
        cases hformer : r.tables.get? t' with
        | none => simp [hasTable, OrderedMap.contains, hformer]
        | some former => simp [hformer] at hr
      simpa only [Replica.occur, hr, accept, hunknown hhas] using h
  | deliver m written =>
    cases hr : r.apply m written with
    | ok r' => simpa only [Replica.occur, hr] using h.apply hr
    | error err =>
      have hhas : r.hasTable m.table = false := by
        unfold Replica.apply at hr
        split at hr
        · simp at hr
        · rename_i hhas
          simpa using hhas
      simpa only [Replica.occur, hr, accept, hunknown hhas] using h

/-- **A replica holds exactly the edits** that `accepted` tells of. -/
theorem reflects_after (events : List ReplicaEvent) :
    (after events).Reflects fun t => accepted t events := by
  induction events using List.reverseRecOn with
  | nil => exact ⟨fun _ => rfl, fun _ _ => rfl⟩
  | append_singleton events e ih =>
    rw [after_concat]
    simpa only [accepted_concat] using ih.occur e

/-- So `hasTable` holds once the table was created. -/
theorem hasTable_after_iff {t : TableName} {events : List ReplicaEvent} :
    (after events).hasTable t = true ↔ .createTable t ∈ events := by
  rw [(reflects_after events).tables, isSome_accepted_iff]

/-- What a cell reads after a sequence of events is what its partition reads after the `edits` of
    `since`. -/
theorem read_after (events : List ReplicaEvent) (t : TableName) (key : Bytes)
    (clustering column : String) :
    (after events).read t key clustering column =
      (Partition.after ((since t events).edits key)).read ⟨clustering, column⟩ := by
  rw [read_eq, (reflects_after events).partitions]
  rfl

/-- **After arrivals that are `Alike` a table shows the same:** the replicas `Agree` on it. -/
theorem agree_after {events events' : List ReplicaEvent} {t : TableName}
    (h : (since t events).Alike (since t events')) : (after events).Agree (after events') t :=
  .of_read fun key clustering column => by
    rw [read_after, read_after, Partition.read_after_congr (h.mem_edits_iff key)]

/-- A mutation of a table that does not exist is refused as `unknownTable` and changes nothing. -/
theorem apply_unknown {r : Replica} {m : Mutation} (written : Timestamp)
    (h : r.hasTable m.table = false) :
    r.apply m written = .error (.unknownTable m.table) ∧ r.occur (.deliver m written) = r := by
  have happly : r.apply m written = .error (.unknownTable m.table) := by
    simp [Replica.apply, h]
  exact ⟨happly, by simp only [Replica.occur, happly]⟩

/-- **The last write wins.** After any sequence of events a cell reads as the greatest of the cells
    accepted for it since its table's last truncation, provided that this one is a value and newer
    than every deletion of the partition accepted since then.  So nothing that can be read of a
    table hangs on the order or the number of the arrivals, nor on the order of the edits in one.  A
    mutation is accepted exactly if its table was created before; else it changes nothing. -/
theorem last_write_wins (events : List ReplicaEvent) :
    (∀ t key clustering column value,
      (after events).read t key clustering column = some value ↔
        ∃ c : Cell, c.Greatest (((since t events).edits key).cells ⟨clustering, column⟩)
          ∧ c.value = some value
          ∧ ∀ deleted ∈ ((since t events).edits key).deletions, deleted < c.written)
      ∧ (∀ events' t, (since t events).Alike (since t events') → (after events).Agree (after events') t)
      ∧ ∀ m written,
        if .createTable m.table ∈ events then ∃ r, (after events).apply m written = .ok r
        else (after events).apply m written = .error (.unknownTable m.table)
          ∧ after (events ++ [.deliver m written]) = after events := by
  refine ⟨fun t key clustering column value => ?_, fun events' t h => agree_after h,
    fun m written => ?_⟩
  · rw [read_after, Partition.read_after]
  · split
    · rename_i hcreated
      -- `apply` looks for the table first, and the two lists agree on which tables there are.
      have hhas : (after events).hasTable m.table = true := hasTable_after_iff.2 hcreated
      simp [Replica.apply, hhas]
    · rename_i hcreated
      have hhas : (after events).hasTable m.table = false :=
        Bool.eq_false_iff.2 fun h => hcreated (hasTable_after_iff.1 h)
      obtain ⟨hrefused, hsame⟩ := apply_unknown written hhas
      exact ⟨hrefused, by rw [after_concat, hsame]⟩

/-- A value and a deletion of one time, in either order and the former twice: the deletion wins. -/
theorem last_write_wins_tie :
    let t : TableName := ⟨"ks", "t"⟩
    let write : Mutation := ⟨t, [1], [.upsert "r" "c" [7]]⟩
    let events : List ReplicaEvent :=
      [.createTable t, .deliver write ⟨5⟩,
        .deliver ⟨t, [1], [.deleteCell "r" "c", .upsert "r" "d" [8]]⟩ ⟨5⟩]
    let events' : List ReplicaEvent :=
      [.createTable t, .deliver ⟨t, [1], [.upsert "r" "d" [8], .deleteCell "r" "c"]⟩ ⟨5⟩,
        .deliver write ⟨5⟩, .deliver write ⟨5⟩]
    (after events).Agree (after events') t ∧ (after events).row t [1] "r" = [("d", [8])] := by
  intro t write events events'
  -- Write and tombstone of the cell tie at time 5; which one wins does not depend on the order.
  refine ⟨(last_write_wins events).2.1 events' t ⟨?_, ?_⟩, by decide +kernel⟩
  · -- Each delivery of the one list is found in the other, its edits permuted.
    intro m written hm
    have hm : (m, written) ∈ [(write, ⟨5⟩),
        (⟨t, [1], [.deleteCell "r" "c", .upsert "r" "d" [8]]⟩, ⟨5⟩)] := hm
    simp only [List.mem_cons, Prod.mk.injEq, List.not_mem_nil, or_false] at hm
    rcases hm with ⟨rfl, rfl⟩ | ⟨rfl, rfl⟩
    · exact ⟨write.edits, .refl _, by decide +kernel⟩
    · exact ⟨_, .swap .., by decide +kernel⟩
  · intro m written hm
    have hm : (m, written) ∈ [(⟨t, [1], [.upsert "r" "d" [8], .deleteCell "r" "c"]⟩, ⟨5⟩),
        (write, ⟨5⟩), (write, ⟨5⟩)] := hm
    simp only [List.mem_cons, Prod.mk.injEq, List.not_mem_nil, or_false, or_self] at hm
    rcases hm with ⟨rfl, rfl⟩ | ⟨rfl, rfl⟩
    · exact ⟨_, .swap .., by decide +kernel⟩
    · exact ⟨write.edits, .refl _, by decide +kernel⟩

end Replica

end BatchJournal
