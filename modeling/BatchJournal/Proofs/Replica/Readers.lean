import BatchJournal.Proofs.Replica.LastWrite
import Mathlib.Data.Finset.Card

namespace BatchJournal

/-!
# The readers of a replica agree

Rows, live partitions and truncation times are read in different ways, and each way filters for
itself what it shows.  They show one and the same replica: a row has the cells that can be read in
it, a partition is counted if a cell of it can be read, and a truncation time is the latest of the
truncations that succeeded.  What is done to one table cannot be seen in another.

* `Replica.exists_live_keys` — live partitions are counted by the keys under which something is
  read.
* `Replica.truncatedAt_occur_eq` — what an event does to the truncation time of a table.
* `Replica.agree_of_other_table` — an event of one table leaves the others as they are.
* `Replica.readers_agree` — all of it, after any sequence of events.
-/

/-- The table that an event is about. -/
def ReplicaEvent.table : ReplicaEvent → TableName
  | .createTable t | .truncate t _ => t
  | .deliver m _ => m.table

namespace Replica

variable {r : Replica} {t : TableName}

/-! ### Live partitions -/

/-- A partition is `live` if some cell of it reads as a value. -/
theorem live_partition_iff {key : Bytes} :
    (r.partition t key).live = true ↔
      ∃ clustering column value, r.read t key clustering column = some value := by
  rw [Partition.live_iff]
  simp only [read_eq]
  exact ⟨fun ⟨slot, hread⟩ => ⟨slot.clustering, slot.column, hread⟩,
    fun ⟨clustering, column, hread⟩ => ⟨⟨clustering, column⟩, hread⟩⟩

/-- No two live partitions of a table have the same key. -/
theorem nodup_live_keys (r : Replica) (t : TableName) :
    ((r.liveIn t).keys.map (·.key)).Nodup := by
  have hkeys : (r.liveIn t).keys.Nodup := by
    refine List.Pairwise.imp ?_ (r.liveIn t).sorted_keys
    rintro k _ hlt rfl
    exact KeyOrder.irrefl k hlt
  refine hkeys.map_on fun k hk k' hk' hkey => ?_
  have htable := (mem_keys_liveIn_iff.1 hk).1.trans (mem_keys_liveIn_iff.1 hk').1.symm
  cases k
  cases k'
  simp_all

/-- **Live partitions are counted** by the keys under which something can be read. -/
theorem exists_live_keys (r : Replica) (t : TableName) :
    ∃ keys : Finset Bytes, keys.card = r.livePartitions t
      ∧ ∀ key, key ∈ keys ↔ ∃ clustering column value,
        r.read t key clustering column = some value := by
  -- The keys are those of the live partitions of the map, each listed once.
  refine ⟨((r.liveIn t).keys.map (·.key)).toFinset, ?_, fun key => ?_⟩
  · rw [List.toFinset_card_of_nodup (r.nodup_live_keys t), List.length_map, livePartitions_eq]
  · rw [← live_partition_iff, List.mem_toFinset, List.mem_map]
    constructor
    · rintro ⟨k, hk, rfl⟩
      obtain ⟨rfl, hlive⟩ := mem_keys_liveIn_iff.1 hk
      exact hlive
    · exact fun hlive => ⟨⟨t, key⟩, mem_keys_liveIn_iff.2 ⟨rfl, hlive⟩, rfl⟩

/-! ### Truncation times -/

/-- The time of an event that truncates `t`, and succeeds. -/
def truncation? (r : Replica) (t : TableName) : ReplicaEvent → Option Timestamp
  | .truncate t' at' => if t' = t ∧ (r.truncate t' at').isOk then some at' else none
  | .createTable _ | .deliver _ _ => none

/-- **The times of the truncations of `t`** that succeed in a sequence of events. -/
def truncations (t : TableName) : Replica → List ReplicaEvent → List Timestamp
  | _, [] => []
  | r, e :: events => (r.truncation? t e).toList ++ truncations t (r.occur e) events

/-- **What an event does to `truncatedAt`:** a truncation of the table that succeeds moves it
    forward, everything else leaves it. -/
theorem truncatedAt_occur_eq (r : Replica) (t : TableName) (e : ReplicaEvent) :
    (r.occur e).truncatedAt t =
      match r.truncation? t e with
      | none => r.truncatedAt t
      | some at' => some (((r.truncatedAt t).map (·.latest at')).getD at') := by
  cases e with
  | createTable t' =>
    simp only [truncation?, occur, createTable]
    split
    · rfl
    · -- A table that is new was not truncated.
      rename_i hnew
      by_cases heq : t = t'
      · have hnone : r.tables.get? t = none := by
          simpa [heq, hasTable, OrderedMap.contains] using hnew
        simp [truncatedAt, OrderedMap.get?_insert, heq ▸ hnone, heq]
      · simp [truncatedAt, OrderedMap.get?_insert, heq]
  | truncate t' at' =>
    cases hformer : r.tables.get? t' with
    | none =>
      have hfails : r.truncate t' at' = .error (.unknownTable t') := by rw [truncate, hformer]
      simp [truncation?, occur, hfails, Except.isOk, Except.toBool]
    | some former =>
      by_cases heq : t' = t
      · subst heq
        simp [truncation?, occur, truncate, hformer, Except.isOk, Except.toBool, truncatedAt,
          OrderedMap.get?_insert]
      · simp [truncation?, occur, truncate, hformer, truncatedAt, OrderedMap.get?_insert, heq,
          Ne.symm heq]
  | deliver m written =>
    simp only [truncation?, occur, apply]
    split
    · rename_i happlied
      split at happlied
      · rw [← Except.ok.inj happlied]
        rfl
      · simp at happlied
    · rfl

/-- `truncated` is the latest of `times`, and `none` if there are no times. -/
structure Latest (truncated : Option Timestamp) (times : List Timestamp) : Prop where
  /-- Without any time there is no latest. -/
  none_iff : truncated = none ↔ times = []
  /-- The latest is one of the times, and no other is later. -/
  some_iff : ∀ time, truncated = some time ↔ time ∈ times ∧ ∀ other ∈ times, other ≤ time

/-- **One truncation more** moves the latest on, by `Timestamp.latest`. -/
theorem Latest.concat {truncated : Option Timestamp} {times : List Timestamp}
    (h : Latest truncated times) (at' : Timestamp) :
    Latest (some ((truncated.map (·.latest at')).getD at')) (times ++ [at']) := by
  -- The new time is the latest of all, or an old one is and stays so.
  have hgreatest : ((truncated.map (·.latest at')).getD at') ∈ times ++ [at']
      ∧ ∀ other ∈ times ++ [at'], other ≤ ((truncated.map (·.latest at')).getD at') := by
    cases truncated with
    | none =>
      rw [h.none_iff.1 rfl]
      exact ⟨by simp, fun other hother => by simp_all [Timestamp.le_refl]⟩
    | some former =>
      obtain ⟨hmem, hle⟩ := (h.some_iff former).1 rfl
      obtain ⟨hformer, hnew⟩ := former.le_latest at'
      refine ⟨?_, fun other hother => ?_⟩
      · rcases former.latest_eq at' with heq | heq <;> simp [heq, hmem]
      · rcases List.mem_append.1 hother with hother | hother
        · exact UInt64.le_trans (hle other hother) hformer
        · rw [List.mem_singleton.1 hother]
          exact hnew
  refine ⟨by simp, fun time => ⟨?_, fun ⟨hmem, hle⟩ => ?_⟩⟩
  · rintro ⟨⟩
    exact hgreatest
  · rw [Timestamp.le_antisymm (hle _ hgreatest.1) (hgreatest.2 _ hmem)]

/-- **`truncatedAt` is the latest** of the truncations so far, after any events. -/
theorem Latest.foldl {times : List Timestamp} (h : Latest (r.truncatedAt t) times)
    (events : List ReplicaEvent) :
    Latest ((events.foldl occur r).truncatedAt t) (times ++ truncations t r events) := by
  induction events generalizing r times with
  | nil => simpa [truncations] using h
  | cons e events ih =>
    -- One event adds at most the truncation it makes, so the latest goes with the list.
    have hstep : Latest ((r.occur e).truncatedAt t) (times ++ (r.truncation? t e).toList) := by
      rw [truncatedAt_occur_eq]
      cases r.truncation? t e with
      | none => simpa using h
      | some at' => exact h.concat at'
    simpa [truncations] using ih hstep

theorem latest_truncations (t : TableName) (events : List ReplicaEvent) :
    Latest ((after events).truncatedAt t) (truncations t empty events) := by
  have hempty : Latest (empty.truncatedAt t) [] :=
    ⟨by simp [truncatedAt, empty], by simp [truncatedAt, empty]⟩
  exact hempty.foldl events

theorem truncations_append (t : TableName) (r : Replica) (events more : List ReplicaEvent) :
    truncations t r (events ++ more)
      = truncations t r events ++ truncations t (events.foldl occur r) more := by
  induction events generalizing r with
  | nil => rfl
  | cons e events ih => simp [truncations, ih]

/-! ### Other tables -/

/-- A table accepts nothing through an event of another one. -/
theorem accept_of_other_table {e : ReplicaEvent} (h : e.table ≠ t) (accepted : Option Arrivals) :
    accept t accepted e = accepted := by
  cases e <;> exact if_neg h

/-- **An event of one table leaves the others as they are,** whether it succeeds or fails. -/
theorem agree_of_other_table (events : List ReplicaEvent) {e : ReplicaEvent} (h : e.table ≠ t) :
    (after (events ++ [e])).Agree (after events) t
      ∧ (after (events ++ [e])).truncatedAt t = (after events).truncatedAt t := by
  constructor
  · refine .of_read fun key clustering column => ?_
    rw [read_after, read_after, since, since, accepted_concat, accept_of_other_table h]
  · -- A truncation of another table is none of this one's.
    have hnone : (after events).truncation? t e = none := by
      cases e with
      | truncate t' at' => exact if_neg fun htruncates => h htruncates.1
      | createTable t' => rfl
      | deliver m written => rfl
    rw [after_concat, truncatedAt_occur_eq, hnone]

/-- **The readers of a replica agree.**  After any sequence of events, successful or not: a row
    lists the columns in ascending order, with just the values that their cells read; the live
    partitions of a table are as many as there are keys under which a cell of it reads as a value;
    the truncation time of a table is the latest time of its successful truncations, if there were
    any, and never goes back; and one more event of a table changes nothing that is read of another,
    nor its truncation time, whether it succeeds or fails. -/
theorem readers_agree (events : List ReplicaEvent) :
    (∀ t key clustering,
      ((after events).row t key clustering).Pairwise (fun a b => a.1 < b.1)
        ∧ ∀ column value, (column, value) ∈ (after events).row t key clustering
          ↔ (after events).read t key clustering column = some value)
    ∧ (∀ t, ∃ keys : Finset Bytes, keys.card = (after events).livePartitions t
        ∧ ∀ key, key ∈ keys ↔ ∃ clustering column value,
          (after events).read t key clustering column = some value)
    ∧ (∀ t, Latest ((after events).truncatedAt t) (truncations t empty events)
        ∧ ∀ more time, (after events).truncatedAt t = some time →
          ∃ later, (after (events ++ more)).truncatedAt t = some later ∧ time ≤ later)
    ∧ ∀ e t, e.table ≠ t → (after (events ++ [e])).Agree (after events) t
        ∧ (after (events ++ [e])).truncatedAt t = (after events).truncatedAt t := by
  refine ⟨fun t key clustering => ⟨?_, fun column value => ?_⟩, exists_live_keys _,
    fun t => ⟨latest_truncations t events, fun more time htime => ?_⟩,
    fun e t => agree_of_other_table events⟩
  · rw [row_eq]
    exact Partition.sorted_row _ _
  · rw [row_eq, read_eq]
    exact Partition.mem_row_iff
  · -- The time known now is one of all the truncations, so the latest of all is not before it.
    obtain ⟨hmem, -⟩ := ((latest_truncations t events).some_iff time).1 htime
    have hmore := latest_truncations t (events ++ more)
    rw [truncations_append] at hmore
    cases hlater : (after (events ++ more)).truncatedAt t with
    | none =>
      have hnil := hmore.none_iff.1 hlater
      rw [(List.append_eq_nil_iff.1 hnil).1] at hmem
      simp at hmem
    | some later =>
      exact ⟨later, rfl, ((hmore.some_iff later).1 hlater).2 time (List.mem_append_left _ hmem)⟩

/-- One partition with a deleted cell, one with nothing else and one that is shadowed; the other
    table is truncated, earlier than before, together with one that does not exist, and truncated
    again. -/
theorem readers_agree_shadowed :
    let t : TableName := ⟨"ks", "t"⟩
    let t' : TableName := ⟨"ks", "u"⟩
    let events : List ReplicaEvent :=
      [.createTable t, .createTable t',
        .deliver ⟨t, [1], [.upsert "r" "b" [1], .upsert "r" "a" [2], .deleteCell "r" "c"]⟩ ⟨5⟩,
        .deliver ⟨t, [2], [.deleteCell "r" "a"]⟩ ⟨5⟩,
        .deliver ⟨t, [3], [.upsert "r" "a" [9], .deletePartition]⟩ ⟨5⟩,
        .truncate t' ⟨9⟩, .truncate t' ⟨4⟩, .truncate ⟨"ks", "v"⟩ ⟨7⟩]
    (after events).row t [1] "r" = [("a", [2]), ("b", [1])]
      ∧ (after events).read t [1] "r" "a" = some [2]
      ∧ (after events).livePartitions t = 1
      ∧ (after events).truncatedAt t' = some ⟨9⟩
      ∧ (∃ later, (after (events ++ [.truncate t' ⟨12⟩])).truncatedAt t' = some later ∧ ⟨9⟩ ≤ later)
      ∧ ReplicaEvent.table (.truncate t' ⟨12⟩) ≠ t
      ∧ (after (events ++ [.truncate t' ⟨12⟩])).Agree (after events) t := by
  intro t t' events
  obtain ⟨hrow, -, htimes, hothers⟩ := readers_agree events
  have hlisted : (after events).row t [1] "r" = [("a", [2]), ("b", [1])] := by decide +kernel
  have htime : (after events).truncatedAt t' = some ⟨9⟩ := by decide +kernel
  have hne : ReplicaEvent.table (.truncate t' ⟨12⟩) ≠ t := by decide
  exact ⟨hlisted, ((hrow t [1] "r").2 "a" [2]).1 (by simp [hlisted]), by decide +kernel, htime,
    (htimes t').2 [.truncate t' ⟨12⟩] ⟨9⟩ htime, hne, (hothers _ t hne).1⟩

end Replica

end BatchJournal
