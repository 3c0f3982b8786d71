import BatchJournal.Store.Basic
import Mathlib.Data.List.Induction

namespace BatchJournal

/-!
# A scan over a store that changes

Between two steps of a scan the store may be put to, deleted from, flushed and compacted, and by
another thread also between two looks of one step.  Whatever happens, the scan goes down the ids
that were stored when it was opened, one after another, and yields what is stored under each by the
time it is looked at.

* `Scanning` — a scan with the store below it, and the store as it was at each look.
* `Scanning.occur_next` — a step of the iterator is a number of looks in a row.
* `Scanning.Follows`, `Scanning.Onward` — what every event preserves, and how far it goes.
* `Scanning.ordered_snapshot` — order, what is yielded, and the end.
-/

/-- What happens to a scan in progress. -/
inductive ScanEvent where
  /-- An operation of the store, successful or not. -/
  | perform (op : StoreOp)
  /-- A look at the next id. -/
  | look
  /-- A step of the iterator: as many looks as it takes to find an entry. -/
  | next

/-- The scan goes on: everything but an operation. -/
def ScanEvent.advances : ScanEvent → Bool
  | .perform _ => false
  | .look | .next => true

/-- **A scan in progress.** -/
structure Scanning where
  /-- The store by now. -/
  store : Store
  /-- The scan by now. -/
  scan : Scan
  /-- The entries that were yielded, the first one first. -/
  yielded : List Entry
  /-- The store as it was at each look. -/
  looks : List Store

namespace Scanning

/-- A scan of everything that `s` stores. -/
def start (s : Store) : Scanning := ⟨s, s.scan, [], []⟩

/-- One event. -/
def occur (r : Scanning) : ScanEvent → Scanning
  | .perform op => { r with store := (r.store.perform op).2 }
  | .look =>
    match r.scan.visit r.store.entries with
    | none => r
    | some (found, scan) => ⟨r.store, scan, r.yielded ++ found.toList, r.looks ++ [r.store]⟩
  | .next =>
    let (found, scan) := r.scan.next r.store.entries
    ⟨r.store, scan, r.yielded ++ found.toList,
      r.looks ++ List.replicate (r.scan.remaining - scan.remaining) r.store⟩

/-- Events, one after another. -/
def run (r : Scanning) (events : List ScanEvent) : Scanning := events.foldl occur r

variable {r : Scanning} {ids : List BatchId} {id : BatchId}

@[simp] theorem run_nil (r : Scanning) : r.run [] = r := rfl

@[simp] theorem run_cons (r : Scanning) (v : ScanEvent) (events : List ScanEvent) :
    r.run (v :: events) = (r.occur v).run events := rfl

theorem run_append (r : Scanning) (events more : List ScanEvent) :
    r.run (events ++ more) = (r.run events).run more := List.foldl_append

theorem run_concat (r : Scanning) (events : List ScanEvent) (v : ScanEvent) :
    r.run (events ++ [v]) = (r.run events).occur v := run_append r events [v]

/-! ### Looks and steps -/

/-- **A `look`** fetches what is stored under the next id by now. -/
theorem occur_look (h : r.scan.ids = id :: ids) :
    r.occur .look
      = ⟨r.store, ⟨ids⟩, r.yielded ++ (r.store.get? id).toList, r.looks ++ [r.store]⟩ := by
  have hvisit : r.scan.visit r.store.entries = some (r.store.get? id, ⟨ids⟩) :=
    Scan.visit_eq_some_iff.2 ⟨id, h, rfl⟩
  simp only [occur, hvisit]

/-- When no id is left, neither `look` nor `next` does anything. -/
theorem occur_of_nil (h : r.scan.ids = []) : r.occur .look = r ∧ r.occur .next = r := by
  obtain ⟨s, ⟨_⟩, yielded, looks⟩ := r
  obtain rfl := h
  simp [occur, Scan.visit, Scan.next, Scan.next.go]

/-- What `next` finds is yielded, and it has looked at every id that it has passed. -/
theorem occur_next_eq (r : Scanning) :
    r.occur .next = ⟨r.store, (r.scan.next r.store.entries).2,
      r.yielded ++ (r.scan.next r.store.entries).1.toList,
      r.looks ++ List.replicate (r.scan.remaining - (r.scan.next r.store.entries).2.remaining)
        r.store⟩ := rfl

/-- A `next` that finds an entry at once is a `look`. -/
theorem occur_next_of_found {e : Entry} (h : r.scan.ids = id :: ids)
    (hfound : r.store.get? id = some e) : r.occur .next = r.occur .look := by
  have hnext : r.scan.next r.store.entries = (some e, ⟨ids⟩) := by
    rw [Scan.next, h, Scan.next.go, show r.store.entries.get? id = some e from hfound]
  rw [occur_look h, occur_next_eq, hnext, hfound]
  simp [Scan.remaining, h]

/-- `next` leaves no more ids than it found. -/
theorem remaining_next_le (es : Entries) (ids : List BatchId) :
    (Scan.next.go es ids).2.remaining ≤ ids.length := by
  induction ids with
  | nil => exact Nat.le_refl 0
  | cons id ids ih =>
    simp only [Scan.next.go]
    split
    · exact Nat.le_succ ids.length
    · exact Nat.le_succ_of_le ih

/-- A `next` that finds nothing under the next id goes on as if it had begun behind it. -/
theorem occur_next_of_missing (h : r.scan.ids = id :: ids) (hmissing : r.store.get? id = none) :
    r.occur .next = (r.occur .look).occur .next := by
  have hle := remaining_next_le r.store.entries ids
  have hnext : r.scan.next r.store.entries = Scan.next.go r.store.entries ids := by
    rw [Scan.next, h, Scan.next.go, show r.store.entries.get? id = none from hmissing]
  -- The look that finds nothing is one more than the looks of the rest.
  have hcount : r.scan.remaining - (Scan.next.go r.store.entries ids).2.remaining
      = ids.length - (Scan.next.go r.store.entries ids).2.remaining + 1 := by
    rw [Scan.remaining, h, List.length_cons]
    omega
  rw [occur_look h, occur_next_eq, occur_next_eq, hnext, hcount, hmissing, List.replicate_succ,
    Option.toList_none, List.append_nil, List.append_assoc]
  rfl

/-- **A `next` of the iterator** is so many `look`s in a row: none when no id is left, otherwise at
    least one, and never more than there are ids. -/
theorem occur_next (r : Scanning) :
    ∃ n ≤ r.scan.remaining, (0 < r.scan.remaining → 0 < n)
      ∧ r.occur .next = r.run (List.replicate n .look) := by
  unfold Scan.remaining
  generalize hids : r.scan.ids = ids
  -- By induction on the ids that are left: one that is passed over is one look more.
  induction ids generalizing r with
  | nil => exact ⟨0, Nat.le_refl 0, fun h => h, (occur_of_nil hids).2⟩
  | cons id ids ih =>
    cases hfound : r.store.get? id with
    | some e => exact ⟨1, by simp, fun _ => Nat.one_pos, occur_next_of_found hids hfound⟩
    | none =>
      have hrest : (r.occur .look).scan.ids = ids := by rw [occur_look hids]
      obtain ⟨n, hn, -, hlooks⟩ := ih _ hrest
      refine ⟨n + 1, Nat.succ_le_succ hn, fun _ => Nat.succ_pos n, ?_⟩
      rw [occur_next_of_missing hids hfound, hlooks, List.replicate_succ, run_cons]

/-- What `perform` and `look` keep of a scan in progress, every run keeps, for `next` is made of
    looks. -/
theorem run_induction {P : Scanning → Prop} (hperform : ∀ r op, P r → P (r.occur (.perform op)))
    (hlook : ∀ r, P r → P (r.occur .look)) (events : List ScanEvent) (h : P r) :
    P (r.run events) := by
  have hlooks : ∀ n r, P r → P (r.run (List.replicate n .look)) := by
    intro n
    induction n with
    | zero => exact fun _ h => h
    | succ n ih => exact fun r h => ih _ (hlook r h)
  induction events generalizing r with
  | nil => exact h
  | cons v events ih =>
    refine ih ?_
    cases v with
    | perform op => exact hperform r op h
    | look => exact hlook r h
    | next =>
      -- Looks in a row, each of which preserves the property.
      obtain ⟨n, -, -, heq⟩ := r.occur_next
      exact heq ▸ hlooks n r h

/-! ### What was yielded -/

/-- What each of the stores `looks` has under the id of its place in `ids`. -/
def fetched (ids : List BatchId) (looks : List Store) : List Entry :=
  (ids.zip looks).filterMap fun p => p.2.get? p.1

/-- **The scan follows its ids:** it has looked at the first of them, and yielded what was stored
    under each at the look. -/
structure Follows (ids : List BatchId) (r : Scanning) : Prop where
  /-- Not more looks than ids. -/
  within : r.looks.length ≤ ids.length
  /-- The ids behind are still to come. -/
  ahead : r.scan.ids = ids.drop r.looks.length
  /-- What was found was yielded. -/
  yielded : r.yielded = fetched ids r.looks

/-- One more look finds what is stored under the next id. -/
theorem fetched_concat {looks : List Store} {rest : List BatchId}
    (h : ids.drop looks.length = id :: rest) (s : Store) :
    fetched ids (looks ++ [s]) = fetched ids looks ++ (s.get? id).toList := by
  -- The next id stands right behind those that have a look already.
  obtain ⟨before, rfl, hlength⟩ : ∃ before, ids = before ++ id :: rest
      ∧ before.length = looks.length := by
    have hlt := congrArg List.length h
    rw [List.length_drop, List.length_cons] at hlt
    refine ⟨ids.take looks.length, by rw [← h, List.take_append_drop], ?_⟩
    rw [List.length_take]
    omega
  have hbefore : (before ++ id :: rest).zip looks = before.zip looks := by
    have hzip : (before ++ id :: rest).zip (looks ++ [])
        = before.zip looks ++ (id :: rest).zip [] :=
      List.zip_append hlength
    simpa using hzip
  have hafter : (before ++ id :: rest).zip (looks ++ [s]) = before.zip looks ++ [(id, s)] := by
    rw [List.zip_append hlength]
    simp
  rw [fetched, fetched, hafter, hbefore, List.filterMap_append]
  cases hfound : s.get? id <;> simp [hfound]

/-- **Every run** of events keeps `Follows`. -/
theorem follows_run (s : Store) (events : List ScanEvent) :
    Follows s.entries.ids ((start s).run events) := by
  -- By induction on the events; a look moves one id from those ahead to those done.
  refine run_induction ?_ ?_ events ⟨Nat.zero_le _, rfl, ?_⟩
  · exact fun r op h => ⟨h.within, h.ahead, h.yielded⟩
  · intro r h
    cases hids : r.scan.ids with
    | nil => exact (occur_of_nil hids).1.symm ▸ h
    | cons id rest =>
      have hdrop := h.ahead.symm.trans hids
      have hlength := congrArg List.length hdrop
      rw [List.length_drop, List.length_cons] at hlength
      rw [occur_look hids]
      refine ⟨?_, ?_, ?_⟩
      · rw [List.length_append, List.length_singleton]
        omega
      · rw [List.length_append, List.length_singleton, ← List.drop_drop, hdrop]
        rfl
      · rw [fetched_concat hdrop, ← h.yielded]
  · rw [fetched, start, List.zip_nil_right, List.filterMap_nil]

/-- What was `fetched` is what a look has found. -/
theorem mem_fetched_iff {looks : List Store} {e : Entry} :
    e ∈ fetched ids looks
      ↔ ∃ (k : Nat) (id : BatchId) (s : Store),
        ids[k]? = some id ∧ looks[k]? = some s ∧ s.get? id = some e := by
  rw [fetched, List.mem_filterMap]
  simp only [List.mem_iff_getElem?, List.getElem?_zip_eq_some]
  constructor
  · rintro ⟨p, ⟨k, hid, hs⟩, hfound⟩
    exact ⟨k, p.1, p.2, hid, hs, hfound⟩
  · rintro ⟨k, id, s, hid, hs, hfound⟩
    exact ⟨(id, s), ⟨k, hid, hs⟩, hfound⟩

/-- Every entry is filed under its id, so what was `fetched` is in the order of the ids. -/
theorem fetched_sublist (ids : List BatchId) (looks : List Store) :
    ((fetched ids looks).map Entry.id).Sublist ids := by
  induction ids generalizing looks with
  | nil => simp [fetched]
  | cons id ids ih =>
    cases looks with
    | nil => simp [fetched]
    | cons s looks =>
      -- An id whose entry is gone by then is skipped, so ids may be missing but not doubled.
      cases hfound : s.get? id with
      | none =>
        have hsame : fetched (id :: ids) (s :: looks) = fetched ids looks := by
          simp [fetched, hfound]
        rw [hsame]
        exact (ih looks).cons id
      | some e =>
        have hsame : fetched (id :: ids) (s :: looks) = e :: fetched ids looks := by
          simp [fetched, hfound]
        rw [hsame, List.map_cons, s.entries.keyed id e hfound]
        exact (ih looks).cons_cons id

/-! ### How far it goes -/

/-- **The scan has gone on** by at least `n` ids: what was yielded is behind what had been, and no
    more than the ids that were passed. -/
structure Onward (n : Nat) (r r' : Scanning) : Prop where
  /-- What was yielded takes an id each. -/
  yielded : ∃ later, r'.yielded = r.yielded ++ later
    ∧ later.length + r'.scan.remaining ≤ r.scan.remaining
  /-- So many ids fewer, or none. -/
  reached : r'.scan.remaining ≤ r.scan.remaining - n

namespace Onward

variable {m n : Nat} {r' r'' : Scanning}

theorem refl (r : Scanning) : Onward 0 r r := ⟨⟨[], by simp⟩, Nat.le_refl _⟩

theorem trans (h : Onward m r r') (h' : Onward n r' r'') : Onward (m + n) r r'' := by
  obtain ⟨later, hlater, hroom⟩ := h.yielded
  obtain ⟨later', hlater', hroom'⟩ := h'.yielded
  have hreached := h.reached
  have hreached' := h'.reached
  refine ⟨⟨later ++ later', by rw [hlater', hlater, List.append_assoc], ?_⟩, by omega⟩
  rw [List.length_append]
  omega

/-- `Onward m` is `Onward n` for a smaller `n`, or where no more than `m` ids are left. -/
theorem of_le (h : Onward m r r') (hle : n ≤ m ∨ r.scan.remaining ≤ m) : Onward n r r' := by
  have hreached := h.reached
  exact ⟨h.yielded, by omega⟩

end Onward

theorem onward_look (r : Scanning) : Onward 1 r (r.occur .look) := by
  cases hids : r.scan.ids with
  | nil =>
    rw [(occur_of_nil hids).1]
    exact (Onward.refl r).of_le (.inr (by simp [Scan.remaining, hids]))
  | cons id ids =>
    rw [occur_look hids]
    refine ⟨⟨_, rfl, ?_⟩, ?_⟩
    · simp only [Scan.remaining, hids, List.length_cons]
      -- One look yields at most one entry.
      have hone : (r.store.get? id).toList.length ≤ 1 := by
        cases r.store.get? id <;> simp
      omega
    · simp [Scan.remaining, hids]

theorem onward_looks (n : Nat) (r : Scanning) :
    Onward n r (r.run (List.replicate n .look)) := by
  induction n generalizing r with
  | zero => exact .refl r
  | succ n ih =>
    rw [Nat.add_comm, Nat.add_comm 1, List.replicate_succ, run_cons, Nat.add_comm]
    exact (onward_look r).trans (ih _)

/-- **Every event** takes the scan on, `look` and `next` by at least one id. -/
theorem onward_occur (r : Scanning) (v : ScanEvent) :
    Onward (if v.advances then 1 else 0) r (r.occur v) := by
  cases v with
  | perform op => exact ⟨⟨[], by simp [occur]⟩, Nat.le_refl _⟩
  | look => exact onward_look r
  | next =>
    obtain ⟨n, -, hpos, hlooks⟩ := r.occur_next
    rw [hlooks]
    refine (onward_looks n r).of_le ?_
    simp only [ScanEvent.advances, if_true]
    omega

/-- **A run** takes the scan on by at least one id for each event that `advances`. -/
theorem onward_run (r : Scanning) (events : List ScanEvent) :
    Onward (events.countP ScanEvent.advances) r (r.run events) := by
  induction events generalizing r with
  | nil => exact .refl r
  | cons v events ih =>
    rw [List.countP_cons, Nat.add_comm]
    exact (onward_occur r v).trans (ih _)

/-- A `next` that yields nothing has come to the end. -/
theorem remaining_of_next_eq_none {s : Scan} {es : Entries} (h : (s.next es).1 = none) :
    (s.next es).2.remaining = 0 := by
  revert h
  unfold Scan.next
  -- Only the ids matter to where the iterator ends.
  generalize s.ids = ids
  induction ids with
  | nil => exact fun _ => rfl
  | cons id ids ih =>
    simp only [Scan.next.go]
    split
    · simp
    · exact ih

/-- At the end `next` yields nothing and changes nothing. -/
theorem next_of_remaining_eq_zero {s : Scan} (h : s.remaining = 0) (es : Entries) :
    s.next es = (none, s) := by
  obtain ⟨ids⟩ := s
  obtain rfl : ids = [] := List.eq_nil_of_length_eq_zero h
  rfl

/-! ### The moment of a look -/

/-- The `looks` of an event see the store as it is before the event. -/
theorem looks_occur (r : Scanning) (v : ScanEvent) :
    ∃ n, (r.occur v).looks = r.looks ++ List.replicate n r.store := by
  cases v with
  | perform op => exact ⟨0, by simp [occur]⟩
  | look =>
    cases hids : r.scan.ids with
    | nil => exact ⟨0, by simp [(occur_of_nil hids).1]⟩
    | cons id ids => exact ⟨1, by simp [occur_look hids]⟩
  | next => exact ⟨_, rfl⟩

/-- **A look sees the store** as the events before it have left it. -/
theorem store_of_look {events : List ScanEvent} {k : Nat} {s : Store}
    (hnone : r.looks = []) (h : (r.run events).looks[k]? = some s) :
    ∃ past v, past ++ [v] <+: events ∧ s = (r.run past).store
      ∧ (r.run past).looks.length ≤ k ∧ k < (r.run (past ++ [v])).looks.length := by
  induction events using List.reverseRecOn with
  | nil => simp [hnone] at h
  | append_singleton events v ih =>
    obtain ⟨n, hlooks⟩ := (r.run events).looks_occur v
    have hwithin := (List.getElem?_eq_some_iff.1 h).1
    rw [run_concat, hlooks] at h
    -- The look was made in an event before the last one, or in the last one.
    by_cases hk : k < (r.run events).looks.length
    · rw [List.getElem?_append_left hk] at h
      obtain ⟨past, v', hbegins, hpast⟩ := ih h
      exact ⟨past, v', hbegins.trans (List.prefix_append _ _), hpast⟩
    · have hlater : (r.run events).looks.length ≤ k := Nat.le_of_not_lt hk
      rw [List.getElem?_append_right hlater, List.getElem?_replicate] at h
      refine ⟨events, v, List.prefix_refl _, ?_, hlater, hwithin⟩
      split at h
      · exact (Option.some.inj h).symm
      · simp at h

/-! ### The whole scan -/

/-- **A scan is an ordered snapshot of ids with live values.** Let a scan be opened on a store of
    either kind, and let operations of the store, looks at the next id and steps of the iterator
    follow in any order, the operations successful or not.

    The ids that were stored when the scan was opened are looked at one after another, so what
    remains is those without the first so many.  Each look sees the store as the events before it
    have left it.  The entries that are yielded are just those that were found under their id at the
    look, so their ids are some of those that were stored at first, strictly ascending, and each
    comes once.

    Whatever follows, no more is yielded than the upper bound of the scan allows; each further look
    or step takes at least one id, until none is left.  A step is a number of looks in a row.  If
    it yields nothing the end is reached, and there it yields nothing and changes nothing. -/
theorem ordered_snapshot (s : Store) (events : List ScanEvent) :
    let ids := s.entries.ids
    let r := (start s).run events
    (r.looks.length + r.scan.remaining = ids.length ∧ r.scan.ids = ids.drop r.looks.length)
    ∧ (∀ (k : Nat) (s' : Store), r.looks[k]? = some s' →
      ∃ past v, past ++ [v] <+: events ∧ s' = ((start s).run past).store
        ∧ ((start s).run past).looks.length ≤ k
        ∧ k < ((start s).run (past ++ [v])).looks.length)
    ∧ (∀ e, e ∈ r.yielded ↔ ∃ (k : Nat) (id : BatchId) (s' : Store),
      ids[k]? = some id ∧ r.looks[k]? = some s' ∧ s'.get? id = some e)
    ∧ (r.yielded.map Entry.id).Sublist ids ∧ (r.yielded.map Entry.id).Pairwise (· < ·)
    ∧ (∀ more, ∃ later, (r.run more).yielded = r.yielded ++ later
      ∧ r.scan.bounds.1 ≤ later.length ∧ later.length ≤ r.scan.bounds.2
      ∧ (r.run more).scan.remaining ≤ r.scan.remaining - more.countP ScanEvent.advances)
    ∧ (∃ n ≤ r.scan.remaining, (0 < r.scan.remaining → 0 < n)
      ∧ r.occur .next = r.run (List.replicate n .look))
    ∧ ∀ es, ((r.scan.next es).1 = none → (r.scan.next es).2.remaining = 0)
      ∧ (r.scan.remaining = 0 → r.scan.next es = (none, r.scan)) := by
  intro ids r
  -- Everything below is read off the invariant, which ties yielded entries, looks and ids.
  have hfollows : Follows ids r := follows_run s events
  have hwithin := hfollows.within
  have hordered : ids.Pairwise (· < ·) := s.entries.byId.sorted_keys
  have hsublist : (r.yielded.map Entry.id).Sublist ids := by
    rw [hfollows.yielded]
    exact fetched_sublist ids r.looks
  refine ⟨⟨?_, hfollows.ahead⟩, fun k s' => store_of_look rfl, fun e => ?_, hsublist,
    hordered.sublist hsublist, fun more => ?_, r.occur_next,
    fun es => ⟨remaining_of_next_eq_none, fun hend => next_of_remaining_eq_zero hend es⟩⟩
  · rw [Scan.remaining, hfollows.ahead, List.length_drop]
    omega
  · rw [hfollows.yielded]
    exact mem_fetched_iff
  · obtain ⟨⟨later, hlater, hroom⟩, hreached⟩ := onward_run r more
    exact ⟨later, hlater, Nat.zero_le _, Nat.le_trans (Nat.le_add_right _ _) hroom, hreached⟩

/-- In a log store: the entry that was yielded is deleted and another put in its place; of those to
    come one is deleted, one is replaced, and one is added behind them; and the log is compacted. -/
theorem ordered_snapshot_disturbed :
    let id (n : UInt8) : BatchId := ⟨n :: List.replicate 15 0, rfl⟩
    let entry (n : UInt8) (micros : UInt64) : Entry := ⟨id n, ⟨micros⟩, ⟨1⟩, [n]⟩
    let events : List ScanEvent :=
      [.next, .perform (.delete (id 1)), .perform (.put (entry 1 9)), .perform (.delete (id 2)),
        .perform (.put (entry 3 9)), .perform (.put (entry 4 9)), .perform .compact, .next]
    ∃ s m, (Medium.disk .fresh).openWith "batches" ⟨.always, .zero, 1, default⟩ = (.ok (s, []), m)
      ∧ let filled := [entry 1 5, entry 2 5, entry 3 5].foldl (fun s e => (s.put e).2) s
        let r := (start filled).run events
        r.yielded = [entry 1 5, entry 3 9] ∧ r.store.count = 3
        ∧ ∀ more, (r.run more).yielded = [entry 1 5, entry 3 9] := by
  intro id entry events
  have hopen : (Medium.disk .fresh).openWith "batches" ⟨.always, .zero, 1, default⟩
      = (.ok (_, []), _) := rfl
  refine ⟨_, _, hopen, ?_⟩
  intro filled r
  -- The first is listed as it was when looked at, the second is gone by then, the third is the
  -- newer one, and the fourth was not there at the start.
  have hyielded : r.yielded = [entry 1 5, entry 3 9] := by decide +kernel
  have hend : r.scan.bounds.2 = 0 := by decide +kernel
  refine ⟨hyielded, by decide +kernel, fun more => ?_⟩
  obtain ⟨-, -, -, -, -, hmore, -⟩ := ordered_snapshot filled events
  obtain ⟨later, hlater, -, hnone, -⟩ := hmore more
  rw [hend] at hnone
  rw [hlater, List.eq_nil_of_length_eq_zero (Nat.le_zero.1 hnone), List.append_nil, hyielded]

end Scanning

end BatchJournal
