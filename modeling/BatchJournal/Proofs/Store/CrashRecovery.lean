import BatchJournal.Proofs.Store.Reopening

namespace BatchJournal

/-!
# Runs of a store and crashes in them

A store is used by one call after another (`Store.run`): operations, look-ups, the syncs it does by
itself, and re-openings, after it was closed or after it was merely left.  What such a run amounts
to is the effect of the operations that were acknowledged, and a crash leaves just that, wherever it
comes.

* `Store.run_sound` — a run of calls keeps a store in step with its disk and has the effect of the
  operations that were acknowledged.
* `Store.recovers_after_crash` — a crash between two effects, or within a write, loses nothing that
  was acknowledged.
-/

/-! ### Runs -/

/-- What is asked of a store. -/
inductive StoreCall where
  /-- An operation. -/
  | perform (op : StoreOp)
  /-- The entry of an id. -/
  | get (id : BatchId)
  /-- The number of entries. -/
  | count
  /-- All entries, by a scan to the end. -/
  | scan
  /-- The sync that a store does by itself. -/
  | sync
  /-- To be opened again, after it was closed or merely left. -/
  | reopen (directory : String) (options : StoreOptions) (closing : Bool)

/-- What a store answers. -/
inductive StoreAnswer where
  /-- The success of a call. -/
  | done (result : Except StoreError Unit)
  /-- The entry that was found. -/
  | found (entry : Option Entry)
  /-- A number. -/
  | number (n : Nat)
  /-- A list of entries. -/
  | listed (entries : List Entry)

namespace Store

/-- The sync that a store does by itself, `LogStore.syncPending`. -/
def sync : Store → Except StoreError Unit × Store
  | .memory es => (.ok (), .memory es)
  | .logged l d =>
    let ((r, l), d) := l.syncPending.run d
    (r, .logged l d)

/-- What is left of a store that is closed or merely left. -/
def left (s : Store) (closing : Bool) : Medium := if closing then s.close else s.crash

/-- **One call,** with the store afterwards; there is none if `reopen` failed. -/
def call (s : Store) : StoreCall → StoreAnswer × Option Store
  | .perform op => (.done (s.perform op).1, some (s.perform op).2)
  | .get id => (.found (s.get? id), some s)
  | .count => (.number s.count, some s)
  | .scan => (.listed (s.scan.drain s.entries).1, some s)
  | .sync => (.done s.sync.1, some s.sync.2)
  | .reopen directory options closing =>
    match ((s.left closing).openWith directory options).1 with
    | .ok (s, _) => (.done (.ok ()), some s)
    | .error e => (.done (.error e), none)

/-- **A run of calls,** as far as there is a store. -/
def run (s : Store) : List StoreCall → List StoreAnswer × Option Store
  | [] => ([], some s)
  | c :: calls =>
    match s.call c with
    | (a, none) => ([a], none)
    | (a, some s) => (a :: (s.run calls).1, (s.run calls).2)

end Store

/-- The effect of a call on the entries: `StoreOp.effect`, if it was acknowledged. -/
def StoreCall.effect (c : StoreCall) (a : StoreAnswer) (es : Entries) : Entries :=
  match c, a with
  | .perform op, .done (.ok ()) => op.effect es
  | _, _ => es

/-- **What was acknowledged:** the effects of all calls of a run, one after another. -/
def Entries.acknowledged (es : Entries) (calls : List StoreCall) (answers : List StoreAnswer) :
    Entries :=
  (calls.zip answers).foldl (fun es p => p.1.effect p.2 es) es

namespace Store

variable {s : Store}

/-! ### Soundness -/

/-- `perform` keeps a store `Sound`, and takes effect just if it is acknowledged. -/
theorem perform_sound (h : s.Sound) (op : StoreOp) :
    (s.perform op).2.Sound
      ∧ (s.perform op).2.entries
        = (StoreCall.perform op).effect (.done (s.perform op).1) s.entries := by
  cases s with
  | memory es => exact ⟨trivial, rfl⟩
  | logged l d =>
    obtain ⟨rs, hl⟩ := h
    obtain ⟨hsound, hentries⟩ := (LogStore.program_ensures hl op).run
    refine ⟨hsound, ?_⟩
    show ((l.program op).run d).1.2.entries
      = (StoreCall.perform op).effect (.done ((l.program op).run d).1.1) l.entries
    rcases hentries with ⟨hok, hentries⟩ | ⟨⟨e, herror⟩, hentries⟩
    · rw [hok, hentries]
      rfl
    · rw [herror, hentries]
      rfl

/-- `syncPending` shows nothing and leaves the disk as it is. -/
theorem run_syncPending (l : LogStore) (d : Disk) :
    ∃ unsynced, l.syncPending.run d = ((.ok (), { l with unsynced }), d) := by
  unfold LogStore.syncPending
  split
  · exact ⟨false, rfl⟩
  · exact ⟨l.unsynced, rfl⟩

theorem sync_sound (h : s.Sound) :
    s.sync.1 = .ok () ∧ s.sync.2.Sound ∧ s.sync.2.entries = s.entries := by
  cases s with
  | memory es => exact ⟨rfl, trivial, rfl⟩
  | logged l d =>
    obtain ⟨rs, hl⟩ := h
    obtain ⟨unsynced, heq⟩ := run_syncPending l d
    simp only [sync, heq]
    exact ⟨trivial, ⟨rs, hl.synced unsynced⟩, rfl⟩

/-- A store with a log leaves its disk as it is, closed or not. -/
theorem left_logged (l : LogStore) (d : Disk) (closing : Bool) :
    (Store.logged l d).left closing = .disk d := by
  obtain ⟨unsynced, heq⟩ := run_syncPending l d
  cases closing with
  | false => rfl
  | true => simp [left, close, LogStore.close, heq]

/-- What is `left` of a sound store opens again with its entries. -/
theorem reopen_sound (h : s.Sound) (closing : Bool) (directory : String) (options : StoreOptions) :
    ∃ s' warnings m', (s.left closing).openWith directory options = (.ok (s', warnings), m')
      ∧ s'.Sound ∧ s'.entries = s.entries := by
  cases s with
  | memory es =>
    refine ⟨.memory es, [], .memory es, ?_, trivial, rfl⟩
    cases closing <;> rfl
  | logged l d =>
    obtain ⟨rs, hl⟩ := h
    rw [left_logged]
    exact Medium.openWith_of_keepsEntries hl.keepsEntries directory options

/-- **One call** keeps a store `Sound`, and has no effect but that of an acknowledged operation. -/
theorem call_sound (h : s.Sound) (c : StoreCall) :
    ∃ s', (s.call c).2 = some s' ∧ s'.Sound ∧ s'.entries = c.effect (s.call c).1 s.entries := by
  cases c with
  | perform op => exact ⟨_, rfl, perform_sound h op⟩
  | get id => exact ⟨s, rfl, h, rfl⟩
  | count => exact ⟨s, rfl, h, rfl⟩
  | scan => exact ⟨s, rfl, h, rfl⟩
  | sync =>
    obtain ⟨-, hsound, hentries⟩ := sync_sound h
    exact ⟨_, rfl, hsound, hentries⟩
  | reopen directory options closing =>
    obtain ⟨s', warnings, m', heq, hsound, hentries⟩ := reopen_sound h closing directory options
    exact ⟨s', by simp [call, heq], hsound, hentries⟩

/-- **A run of calls** keeps a store `Sound`, and has the effect of what was `acknowledged`. -/
theorem run_sound (h : s.Sound) (calls : List StoreCall) :
    ∃ s', (s.run calls).2 = some s' ∧ s'.Sound
      ∧ s'.entries = s.entries.acknowledged calls (s.run calls).1 := by
  induction calls generalizing s with
  | nil => exact ⟨s, rfl, h, rfl⟩
  | cons c calls ih =>
    obtain ⟨s₁, hcall, hsound₁, hentries₁⟩ := call_sound h c
    obtain ⟨s₂, hrun, hsound₂, hentries₂⟩ := ih hsound₁
    have hpair : s.call c = ((s.call c).1, some s₁) := by rw [← hcall]
    refine ⟨s₂, by rw [run, hpair]; exact hrun, hsound₂, ?_⟩
    rw [hentries₂, hentries₁, run, hpair]
    rfl

/-! ### Crashes -/

/-- A process that dies between two operations leaves the entries. -/
theorem crash_recovers (h : s.Sound) : s.crash.Recovers s.entries := by
  intro directory options
  obtain ⟨s', warnings, m', heq, -, hentries⟩ := reopen_sound h false directory options
  exact ⟨s', warnings, m', heq, hentries⟩

/-- A process that dies in `op` leaves the entries without its effect or with it. -/
theorem crashIn_recovers (h : s.Sound) (op : StoreOp) (effects kept : Nat) :
    (s.crashIn op effects kept).Recovers s.entries
      ∨ (s.crashIn op effects kept).Recovers (op.effect s.entries) := by
  cases s with
  | memory es =>
    refine .inl fun directory options => ⟨.memory es, [], .memory es, rfl, rfl⟩
  | logged l d =>
    obtain ⟨rs, hl⟩ := h
    rcases (LogStore.program_ensures hl op).diesAfter effects kept with hd | hd
    · exact .inl (Medium.recovers_of_keepsEntries hd)
    · exact .inr (Medium.recovers_of_keepsEntries hd)

/-- **A crash loses nothing that was acknowledged and brings back nothing else.** Between two calls
    it leaves what was acknowledged; within an operation, after any of its effects and with any part
    of a write, it leaves that or the same with the operation carried out. -/
theorem recovers_after_crash {directory : String} {options : StoreOptions} {found : Disk}
    {s : Store} {warnings : List Warning} {m : Medium}
    (hopen : (Medium.disk found).openWith directory options = (.ok (s, warnings), m))
    (calls : List StoreCall) :
    ∃ s', (s.run calls).2 = some s'
      ∧ let es := s.entries.acknowledged calls (s.run calls).1
        s'.crash.Recovers es
          ∧ ∀ op effects kept,
            (s'.crashIn op effects kept).Recovers es
              ∨ (s'.crashIn op effects kept).Recovers (op.effect es) := by
  obtain ⟨s', hrun, hsound, hentries⟩ := run_sound (sound_of_openWith hopen) calls
  refine ⟨s', hrun, ?_⟩
  rw [← hentries]
  exact ⟨crash_recovers hsound, crashIn_recovers hsound⟩

/-- On a new disk: a put, a compaction, and a crash in the deletion of what was put. -/
theorem recovers_after_crash_fresh :
    ∃ s m,
      (Medium.disk .fresh).openWith "batches" ⟨.always, .zero, 1, default⟩ = (.ok (s, []), m)
        ∧ ∃ s', (s.run [.perform (.put default), .perform .compact]).2 = some s'
          ∧ s'.crash.Recovers (Entries.empty.put default)
          ∧ ∀ effects kept,
            (s'.crashIn (.delete default) effects kept).Recovers (Entries.empty.put default)
              ∨ (s'.crashIn (.delete default) effects kept).Recovers .empty := by
  have hopen : (Medium.disk .fresh).openWith "batches" ⟨.always, .zero, 1, default⟩
      = (.ok (_, []), _) := rfl
  obtain ⟨s', hrun, hbetween, hwithin⟩ :=
    recovers_after_crash hopen [.perform (.put default), .perform .compact]
  exact ⟨_, _, hopen, s', hrun, hbetween, fun effects kept => hwithin _ effects kept⟩

end Store

end BatchJournal
