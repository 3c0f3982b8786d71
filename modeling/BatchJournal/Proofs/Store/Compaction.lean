import BatchJournal.Proofs.Store.AnyContent
import BatchJournal.Proofs.Store.FailedWrites
import Mathlib.Algebra.Order.Ring.Nat
import Mathlib.Data.List.Flatten
import Mathlib.Data.List.Perm.Basic
import Mathlib.Data.List.Perm.Subperm

namespace BatchJournal

/-!
# Compaction is atomic

Compacting replaces the log by one that holds the live entries and nothing else.  The new log is
written beside the old one and takes its place in a single step, so whatever fails and wherever the
process dies, the log is the old one or the new one as a whole.

* `Index.puts_subperm` — the puts of the live entries are among the records, so the new log is no
  longer than the old one.
* `Program.Heedless.runWith` — a temporary file that was left behind makes no difference.
* `LogStore.Onward` — what a store comes to by calls that do not compact its log.
* `LogStore.compaction_atomic` — success, failure and death of a compaction, and what is opened
  afterwards.
* `LogStore.old_log_gains_failed_put` — where the old log and the new one are opened differently.
-/

/-! ### The length of a log -/

/-- The length of `bytes rs` is the sum of `encodedLength`. -/
theorem Log.length_bytes (rs : List Record) :
    (bytes rs).length = (rs.map Record.encodedLength).sum := by
  induction rs with
  | nil => rfl
  | cons r rs ih => rw [bytes_cons, List.length_append, Record.length_bytes, ih, List.map_cons,
      List.sum_cons]

/-- A log of some of the records is no longer. -/
theorem Log.length_bytes_le {rs rs' : List Record} (h : rs.Subperm rs') :
    (bytes rs).length ≤ (bytes rs').length := by
  obtain ⟨rs₁, hperm, hsub⟩ := h
  calc (bytes rs).length
      = (bytes rs₁).length := ((hperm.flatMap fun _ _ => .refl _).length_eq).symm
    _ ≤ (bytes rs').length := (hsub.flatMap Record.bytes).length_le

/-- **The puts of the live entries** are among the records, each as often as it is live. -/
theorem Index.puts_subperm (rs : List Record) : (puts (ofRecords rs).entries).Subperm rs := by
  have hdistinct : (puts (ofRecords rs).entries).Nodup := by
    refine List.Pairwise.map Record.put ?_ (Entries.sorted_toList (ofRecords rs).entries)
    intro e e' hlt heq
    rw [Record.put.inj heq] at hlt
    exact KeyOrder.irrefl _ hlt
  refine hdistinct.subperm fun r hr => ?_
  obtain ⟨e, he, rfl⟩ := List.mem_map.1 hr
  exact put_mem_of_get? (Entries.mem_toList_iff.1 he)

/-- The length of `log`: the header, and one put for each entry. -/
theorem Entries.length_log (es : Entries) :
    es.log.length = 16 + ((Index.puts es).map Record.encodedLength).sum := by
  rw [log, List.length_append, Log.length_bytes, Header.opens_current.length_eq]
  rfl

/-! ### Temporary files that were left behind -/

/-- The effect is about the temporary file. -/
def Effect.onTemp : Effect → Bool
  | .createTemp | .writeTemp _ | .syncTemp | .removeTemp | .renameTemp => true
  | _ => false

namespace Disk

/-- **Two disks that differ in a temporary file** that was left on one of them, or on both. -/
structure UpToTemp (d d' : Disk) : Prop where
  /-- The logs agree. -/
  sameLog : d.SameLog d'
  /-- Files may be equally long. -/
  limit : d'.limit = d.limit
  /-- A temporary file can be made on `d`. -/
  free : d.temp ≠ .directory
  /-- A temporary file can be made on `d'`. -/
  free' : d'.temp ≠ .directory

namespace UpToTemp

variable {d d' : Disk}

/-- Effects that are not `onTemp` do the same on both. -/
theorem attempt (h : d.UpToTemp d') {e : Effect} (he : e.onTemp = false) :
    (d'.attempt e).1 = (d.attempt e).1 ∧ (d.attempt e).2.UpToTemp (d'.attempt e).2 := by
  obtain ⟨place, log, temp, limit⟩ := d
  obtain ⟨place', log', temp', limit'⟩ := d'
  obtain ⟨⟨rfl, rfl⟩, rfl, hfree, hfree'⟩ := h
  cases e with
  | makeDirectory => cases place' <;> exact ⟨rfl, ⟨rfl, rfl⟩, rfl, hfree, hfree'⟩
  | createLog => cases log' <;> exact ⟨rfl, ⟨rfl, rfl⟩, rfl, hfree, hfree'⟩
  | cutLog handle length =>
    obtain ⟨position, writable⟩ := handle
    cases writable <;> exact ⟨rfl, ⟨rfl, rfl⟩, rfl, hfree, hfree'⟩
  | writeLog handle bytes =>
    obtain ⟨position, writable⟩ := handle
    cases writable with
    | false => exact ⟨rfl, ⟨rfl, rfl⟩, rfl, hfree, hfree'⟩
    | true =>
      refine ⟨rfl, ?_⟩
      -- How much of the write is admitted depends on the limit alone.
      show UpToTemp (Disk.written _ position (Disk.admitted ⟨place', log', temp', limit'⟩ _ _)) _
      simp only [Disk.attempt, written, if_true]
      split <;> exact ⟨⟨rfl, rfl⟩, rfl, hfree, hfree'⟩
  | seekLog | syncLog | syncDirectory => exact ⟨rfl, ⟨rfl, rfl⟩, rfl, hfree, hfree'⟩
  | createTemp | writeTemp | syncTemp | removeTemp | renameTemp => simp [Effect.onTemp] at he

/-- So do such effects that are broken off. -/
theorem partway (h : d.UpToTemp d') {e : Effect} (he : e.onTemp = false) (kept : Nat) :
    (d.partway kept e).UpToTemp (d'.partway kept e) := by
  cases e with
  | writeLog handle bytes => exact (h.attempt rfl).2
  | writeTemp bytes => simp [Effect.onTemp] at he
  | makeDirectory | createLog | cutLog | seekLog | syncLog | createTemp | syncTemp | removeTemp
  | renameTemp | syncDirectory => exact h

/-- `createTemp` makes them equal. -/
theorem attempt_createTemp (h : d.UpToTemp d') :
    d'.attempt .createTemp = d.attempt .createTemp := by
  obtain ⟨place, log, temp, limit⟩ := d
  obtain ⟨place', log', temp', limit'⟩ := d'
  obtain ⟨⟨rfl, rfl⟩, rfl, hfree, hfree'⟩ := h
  cases temp <;> cases temp' <;> first | rfl | contradiction

/-- `removeTemp` keeps them so, whether the file is there or not. -/
theorem attempt_removeTemp (h : d.UpToTemp d') :
    (d.attempt .removeTemp).2.UpToTemp (d'.attempt .removeTemp).2 := by
  have hremoved : ∀ d : Disk, d.temp ≠ .directory →
      (d.attempt .removeTemp).2 = { d with temp := .free } := by
    rintro ⟨place, log, temp, limit⟩ hfree
    cases temp <;> first | rfl | contradiction
  rw [hremoved d h.free, hremoved d' h.free']
  exact ⟨⟨h.sameLog.directory, h.sameLog.log⟩, h.limit, by simp, by simp⟩

end UpToTemp

end Disk

namespace Program

variable {α β : Type}

/-- **The program takes no heed of a temporary file** that was there before: it writes none before
    it has made its own, and it does not ask whether there was one to remove. -/
def Heedless : Program α → Prop
  | .done _ => True
  | .perform e next =>
    match e with
    | .createTemp => (next false).Heedless
    | .removeTemp => next true = next false ∧ (next true).Heedless
    | e => e.onTemp = false ∧ ∀ ok, (next ok).Heedless

theorem runWith_perform (e : Effect) (next : Bool → Program α) (script : List (Option Nat))
    (d : Disk) :
    (Program.perform e next).runWith script d
      = (next (d.attemptWith script.head?.join e).1).runWith script.tail
          (d.attemptWith script.head?.join e).2 := by
  cases script <;> rfl

/-- `>>=` keeps `Heedless`. -/
theorem Heedless.bind {p : Program α} {f : α → Program β} (hp : p.Heedless)
    (hf : ∀ a, (f a).Heedless) : (p >>= f).Heedless := by
  show (p.bind f).Heedless
  -- By induction on the program: what follows an effect is asked for every answer it may get.
  induction p with
  | done a => exact hf a
  | perform e next ih =>
    cases e with
    | createTemp => exact ih false hp
    | removeTemp => exact ⟨congrArg (Program.bind · f) hp.1, ih true hp.2⟩
    | writeTemp | syncTemp | renameTemp => exact ⟨hp.1, fun ok => ih ok (hp.2 ok)⟩
    | makeDirectory | createLog | writeLog | cutLog | seekLog | syncLog | syncDirectory =>
      exact ⟨hp.1, fun ok => ih ok (hp.2 ok)⟩

/-- So does a program that performs an effect that is not `onTemp` and goes on according to its
    success. -/
theorem Heedless.checked {e : Effect} (he : e.onTemp = false) {no yes : Program α}
    (hno : no.Heedless) (hyes : yes.Heedless) :
    (effect e >>= fun ok => if !ok then no else yes).Heedless := by
  -- The question is about both answers, whatever the disk gave.
  have hnext : ∀ ok : Bool, (if !ok then no else yes).Heedless := by
    intro ok
    cases ok with
    | false => exact hno
    | true => exact hyes
  cases e with
  | createTemp | writeTemp | syncTemp | removeTemp | renameTemp => simp [Effect.onTemp] at he
  | makeDirectory | createLog | writeLog | cutLog | seekLog | syncLog | syncDirectory =>
    exact ⟨rfl, hnext⟩

/-- **A temporary file that was left behind** makes no difference to a `Heedless` program. -/
theorem Heedless.runWith {p : Program α} (hp : p.Heedless) {d d' : Disk} (hd : d.UpToTemp d')
    (script : List (Option Nat)) :
    (p.runWith script d').1 = (p.runWith script d).1
      ∧ (p.runWith script d).2.SameLog (p.runWith script d').2 := by
  induction p generalizing d d' script with
  | done a => cases script <;> exact ⟨rfl, hd.sameLog⟩
  | perform e next ih =>
    simp only [runWith_perform]
    generalize script.head?.join = failure
    by_cases he : e.onTemp = false
    · -- An effect on the rest is the same on both disks.
      have hnext : ∀ ok, (next ok).Heedless := by
        cases e <;> first | exact hp.2 | simp [Effect.onTemp] at he
      cases failure with
      | none =>
        obtain ⟨hok, hafter⟩ := hd.attempt he
        simp only [Disk.attemptWith, hok]
        exact ih _ (hnext _) hafter _
      | some kept => exact ih _ (hnext _) (hd.partway he kept) _
    · cases e with
      | createTemp =>
        cases failure with
        | none =>
          simp only [Disk.attemptWith, hd.attempt_createTemp, true_and]
          exact .refl _
        | some kept => exact ih _ hp hd _
      | removeTemp =>
        obtain ⟨hsame, hnext⟩ := hp
        have hany : ∀ ok, next ok = next true := by
          intro ok
          cases ok with
          | true => rfl
          | false => exact hsame.symm
        rw [hany (d.attemptWith failure .removeTemp).1, hany (d'.attemptWith failure .removeTemp).1]
        cases failure with
        | none => exact ih _ hnext hd.attempt_removeTemp _
        | some kept => exact ih _ hnext hd _
      | writeTemp | syncTemp | renameTemp => exact absurd hp.1 (by simp [Effect.onTemp])
      | makeDirectory | createLog | writeLog | cutLog | seekLog | syncLog | syncDirectory =>
        exact absurd rfl he

end Program

namespace LogStore

/-- `sync` is nothing to the temporary file. -/
theorem heedless_sync (s : LogStore) : s.sync.Heedless := by
  refine ⟨rfl, fun ok => ?_⟩
  cases ok <;> trivial

theorem heedless_rollback (s : LogStore) : s.rollback.Heedless :=
  .checked rfl trivial (.checked rfl trivial trivial)

theorem heedless_append (s : LogStore) (r : Record) : (s.append r).Heedless := by
  -- Taking back a failed write cuts and seeks, and touches no temporary file.
  have hback : ∀ s' : LogStore,
      (s'.rollback >>= fun s'' => pure (Except.error ioFailure, s'')
        : Program (Except StoreError Unit × LogStore)).Heedless :=
    fun s' => .bind s'.heedless_rollback fun _ => trivial
  unfold append
  split
  · trivial
  · cases r.encode with
    | error e => trivial
    | ok bytes =>
      refine .checked rfl (hback _) ?_
      split
      · exact .checked rfl (hback _) trivial
      · trivial

/-- Before `compact` has made its temporary file it does not look for one. -/
theorem heedless_compact (s : LogStore) : s.compact.Heedless := by
  refine ⟨rfl, fun ok => ?_⟩
  cases ok with
  | true => exact ⟨rfl, trivial⟩
  | false => trivial

theorem heedless_flush (s : LogStore) : s.flush.Heedless := by
  refine .bind s.heedless_sync fun result => ?_
  obtain ⟨answer, s'⟩ := result
  cases answer with
  | error e => trivial
  | ok =>
    show Program.Heedless
      (if s'.options.compactionDue s'.index.records s'.index.dead = true then _ else _)
    split
    · exact s'.heedless_compact
    · trivial

/-- **No call of a store** takes heed of a temporary file that was left behind: `respond` is
    `Heedless`. -/
theorem heedless_respond (s : LogStore) (c : LogCall) : (s.respond c).Heedless := by
  cases c with
  | sync =>
    show (if s.unsynced = true then s.sync else pure (.ok (), s)).Heedless
    split
    · exact s.heedless_sync
    · trivial
  | perform op =>
    cases op with
    | put e => exact s.heedless_append _
    | delete id =>
      show Program.Heedless (if s.entries.contains id = true then s.append (.delete id) else _)
      split
      · exact s.heedless_append _
      · trivial
    | flush => exact s.heedless_flush
    | compact => exact s.heedless_compact

/-- **`opening` a store** is `Heedless`. -/
theorem heedless_opening (directory : String) (options : StoreOptions) (found : Disk) :
    (opening directory options found).Heedless := by
  -- Opening makes or recovers the log in place; only compaction has a temporary file.
  have hcreate : ∀ path, (create path options).Heedless := fun path =>
    .checked rfl trivial (.checked rfl trivial (.checked rfl trivial ⟨rfl, fun _ => trivial⟩))
  have hrecover : ∀ path file, (recover path options file).Heedless := by
    intro path file
    simp only [recover]
    split
    · trivial
    · split
      · trivial
      · split
        · exact .checked rfl trivial (.checked rfl trivial (.checked rfl trivial trivial))
        · exact .checked rfl trivial trivial
  refine .checked rfl trivial ?_
  cases found.log with
  | some file => exact hrecover _ file
  | none =>
    refine .bind (hcreate _) fun result => ?_
    cases result <;> trivial

/-! ### Calls that do not compact the log -/

end LogStore

/-- The records that a call adds to the log of a store with the given entries: none unless it was
    acknowledged. -/
def LogCall.added (c : LogCall) (es : Entries) : Except StoreError Unit → List Record
  | .ok () => c.record?.elim [] (·.added es)
  | .error _ => []

namespace LogStore

variable {s s' : LogStore} {d d' : Disk} {rs added : List Record} {r failed : Record} {file : Bytes}

/-- **What a store comes to by calls that do not compact its log,** while any file operation may
    fail, with the records `added` by the puts and deletes that were acknowledged on the way. -/
inductive Onward (s : LogStore) (d : Disk) : LogStore → Disk → List Record → Prop
  /-- Nothing was called yet. -/
  | refl : Onward s d s d []
  /-- It was called. -/
  | called {s' s'' : LogStore} {d' d'' : Disk} {added : List Record} {c : LogCall}
      {script : List (Option Nat)} {answer : Except StoreError Unit} (h : Onward s d s' d' added)
      (hcall : (s'.respond c).runWith script d' = ((answer, s''), d''))
      (hnot : s'.compactsOn c = false) : Onward s d s'' d'' (added ++ c.added s'.entries answer)

/-- A call with a `record?` appends it, unless it deletes what is not there. -/
theorem respond_adds {c : LogCall} (h : c.record? = some r) :
    s.respond c = s.append r ∧ r.added s.entries = [r]
      ∨ s.respond c = pure (.ok (), s) ∧ r.added s.entries = [] := by
  cases c with
  | sync => simp [LogCall.record?] at h
  | perform op =>
    cases op with
    | put e =>
      obtain rfl := Option.some.inj h
      exact .inl ⟨rfl, rfl⟩
    | delete id =>
      obtain rfl := Option.some.inj h
      by_cases hid : s.entries.contains id = true
      · exact .inl ⟨if_pos hid, if_pos hid⟩
      · exact .inr ⟨if_neg hid, if_neg hid⟩
    | flush | compact => simp [LogCall.record?, StoreOp.record?] at h

/-- **One call that does not compact the log** of a store `InStep` adds what it acknowledges to the
    end of the log, unless it breaks the store. -/
theorem call_adds (h : s.InStep d rs) (hlog : d.log = some file) {c : LogCall}
    (hnot : s.compactsOn c = false) :
    (s.respond c).Survives
      (fun result d' =>
        result.2.InStep d' (rs ++ c.added s.entries result.1)
            ∧ d'.log = some (file ++ Log.bytes (c.added s.entries result.1))
          ∨ ∃ failed, result.2.Torn d' rs failed) d := by
  -- A call with a record appends it or finds nothing to delete; any other leaves the log.
  cases hc : c.record? with
  | some r =>
    rcases respond_adds (s := s) hc with ⟨hrespond, hadded⟩ | ⟨hrespond, hadded⟩
    · rw [hrespond]
      refine (append_survives h r).mono ?_
      -- The append succeeds, fails and is taken back, or fails and cannot be taken back.
      rintro result d' (⟨hstep, hlog'⟩ | ⟨e, hstep, hlog', -⟩ | ⟨e, htorn, -⟩)
      · have hone : c.added s.entries (.ok ()) = [r] := by rw [LogCall.added, hc]; exact hadded
        rw [hone]
        exact .inl ⟨hstep, by rw [hlog', hlog]; simp⟩
      · refine .inl ⟨?_, by rw [hlog', hlog]; simp [LogCall.added]⟩
        simpa [LogCall.added] using hstep
      · exact .inr ⟨r, htorn⟩
    · have hnone : c.added s.entries (.ok ()) = [] := by rw [LogCall.added, hc]; exact hadded
      rw [hrespond, Program.survives_pure, hnone]
      exact .inl ⟨by simpa using h, by simp [hlog]⟩
  | none =>
    -- Without a record and without compaction a call only syncs.
    refine (idle_survives hc hnot h.directory h.fits).mono ?_
    rintro ⟨answer, s'⟩ d' ⟨⟨unsynced, rfl⟩, rfl⟩
    have hnone : c.added s.entries answer = [] := by
      cases answer with
      | ok => rw [LogCall.added, hc]; rfl
      | error e => rfl
    rw [hnone]
    exact .inl ⟨by simpa using h.synced unsynced, by simp [hlog]⟩

/-- **`Onward` calls,** one after another, add what they acknowledge to the end of the log as long
    as the store is not broken. -/
theorem Onward.adds (honward : Onward s d s' d' added) (h : s.InStep d rs)
    (hlog : d.log = some file) :
    s'.InStep d' (rs ++ added) ∧ d'.log = some (file ++ Log.bytes added)
      ∨ ∃ rs' failed, s'.Torn d' rs' failed := by
  induction honward with
  | refl => exact .inl ⟨by simpa using h, by simp [hlog]⟩
  | @called s₁ s₂ d₁ d₂ added c script answer honward hcall hnot ih =>
    rcases ih with ⟨hstep, hadded⟩ | ⟨rs', failed, htorn⟩
    · have hcalled := (call_adds hstep hadded hnot).runWith script
      rw [hcall] at hcalled
      rcases hcalled with ⟨hstep', hlog'⟩ | ⟨failed, htorn⟩
      · rw [List.append_assoc] at hstep' hlog'
        exact .inl ⟨hstep', by rw [hlog', Log.bytes_append]⟩
      · exact .inr ⟨_, failed, htorn⟩
    · -- A broken store stays broken until its log is compacted.
      have hcalled := (call_torn htorn c).runWith script
      rw [hcall] at hcalled
      rcases hcalled with ⟨hcompacts, -⟩ | ⟨-, hd, unsynced, rfl⟩
      · rw [hnot] at hcompacts
        exact absurd hcompacts Bool.false_ne_true
      · exact .inr ⟨rs', failed, (htorn.synced unsynced).sameLog hd⟩

/-- **A store that takes writes** into the log that it has now: whatever is called, short of a
    compaction, everything that is acknowledged stands behind what was there; and as long as no
    failure has broken the store, an operation whose record fits succeeds if no effect fails. -/
structure TakesWrites (s : LogStore) (d : Disk) (file : Bytes) : Prop where
  /-- It is not broken. -/
  working : s.broken = false
  /-- The log is as it was, with what was `added` behind it. -/
  lands : ∀ s' d' added, Onward s d s' d' added → s'.broken = false
    → d'.log = some (file ++ Log.bytes added)
  /-- Writes succeed. -/
  succeeds : ∀ s' d' added, Onward s d s' d' added → s'.broken = false
    → ∀ op : StoreOp, (∀ r, op.record? = some r → r.Fits) → (s'.program op).Undisturbed d'
    → ((s'.program op).run d').1.1 = .ok ()

/-- A store `InStep` takes writes. -/
theorem InStep.takesWrites (h : s.InStep d rs) (hlog : d.log = some file) :
    s.TakesWrites d file where
  working := h.working
  lands s' d' added honward hworks := by
    rcases honward.adds h hlog with ⟨-, hlog'⟩ | ⟨rs', failed, htorn⟩
    · exact hlog'
    · exact absurd htorn.broken (by simp [hworks])
  succeeds s' d' added honward hworks op hfits hquiet := by
    rcases honward.adds h hlog with ⟨hstep, -⟩ | ⟨rs', failed, htorn⟩
    · exact program_ok hstep (fun e he => hfits _ (by rw [he]; rfl)) hquiet
    · exact absurd htorn.broken (by simp [hworks])

/-! ### Compacting what was reached -/

/-- **What a compaction that succeeded leaves:** the same entries in a log of one put for each. -/
structure Rewritten (s : LogStore) (d : Disk) (s' : LogStore) (d' : Disk) : Prop where
  /-- Every look-up finds what it found. -/
  get : ∀ id, (Store.logged s' d').get? id = (Store.logged s d).get? id
  /-- The count is the same. -/
  count : (Store.logged s' d').count = (Store.logged s d).count
  /-- A scan gives the same. -/
  scan : (Store.logged s' d').scan = (Store.logged s d).scan
  /-- No record is dead. -/
  garbage : s'.garbage = 0
  /-- The log is the header and one put for each live entry, in id order. -/
  log : d'.log = some
    (Header.current.encode ++ (s.entries.toList.map Record.put).flatMap Record.bytes)
  /-- The size is that of the header and of the puts. -/
  size : s'.size = 16 + ((s.entries.toList.map Record.put).map Record.encodedLength).sum
  /-- The log is as long as the store says. -/
  length : d'.log.map List.length = some s'.size
  /-- It was no shorter before. -/
  smaller : s'.size ≤ s.size
  /-- What is appended from now on goes into the new log. -/
  writes : s'.TakesWrites d' s.entries.log

/-- **What a compaction that failed leaves:** store and log as they were. -/
structure Spared (s : LogStore) (d : Disk) (s' : LogStore) (d' : Disk) : Prop where
  /-- Nothing of the store has changed but `unsynced`. -/
  store : ∃ unsynced, s' = { s with unsynced }
  /-- The log is complete. -/
  log : d.SameLog d'
  /-- The store takes writes into it if it took any before. -/
  writes : s.broken = false → ∃ file, d.log = some file ∧ s'.TakesWrites d' file

/-- **The old log or the new one,** `s.entries.log`, as a whole. -/
structure OldOrNew (s : LogStore) (d d' : Disk) : Prop where
  /-- The directory is there. -/
  directory : d'.directory = d.directory
  /-- One of the two logs is in its place. -/
  log : d'.log = d.log ∨ d'.log = some s.entries.log

/-- **A disk from which a store recovers:** the log opens, whatever else fails on the way, and with
    the same entries.  Only where a write had broken the store when its whole record was in the log
    already, its effect is found too. -/
structure RecoversFrom (s : LogStore) (d : Disk) (culprit : Option Record) (d' : Disk) : Prop where
  /-- It opens. -/
  opens : ∀ directory options, ∃ s' warnings,
    (openOn directory options d').1 = .ok (s', warnings)
  /-- What is opened takes writes, and has the entries. -/
  entries : ∀ directory options script s' warnings d'',
    (opening directory options d').runWith script d' = (.ok (s', warnings), d'')
    → s'.broken = false
      ∧ (s'.entries = s.entries
        ∨ ∃ failed file, culprit = some failed ∧ d'.log = d.log
          ∧ d.log = some (file ++ failed.bytes) ∧ s.size = file.length
          ∧ s'.index = s.index.add failed)

variable {culprit : Option Record}

/-- In whatever `Condition` a store is, its entries fit, its directory is there, and it knows the
    size of a log of its records. -/
theorem Condition.facts (h : s.Condition d rs culprit) :
    d.directory = .present ∧ (∀ r ∈ Index.puts s.entries, r.Fits) ∧ s.index = .ofRecords rs
      ∧ s.size = 16 + (Log.bytes rs).length := by
  -- A torn record is not counted, since `size` stays where the last whole record ends.
  have hlength : ∀ {file : Bytes}, Log.Holds file rs [] →
      file.length = 16 + (Log.bytes rs).length := by
    intro file hholds
    show file.length = Header.length + (Log.bytes rs).length
    simpa using hholds.length_eq
  cases culprit with
  | none =>
    have hstep : s.InStep d rs := h
    obtain ⟨file, -, hholds, hsize⟩ := hstep.log
    exact ⟨hstep.directory, hstep.fits, hstep.index, hsize.trans (hlength hholds)⟩
  | some failed =>
    have htorn : s.Torn d rs failed := h
    obtain ⟨file, part, -, hholds, hsize, -⟩ := htorn.log
    exact ⟨htorn.directory, htorn.fits_entries, htorn.index, hsize.trans (hlength hholds)⟩

/-- A store recovers from a disk that `Keeps` records with its entries, or with the effect of the
    write that broke it as well if the record is there. -/
theorem recoversFrom_of_keeps (hkeeps : d'.Keeps rs)
    (hrecords : (Index.ofRecords rs).entries = s.entries
      ∨ ∃ failed file, culprit = some failed ∧ d'.log = d.log ∧ d.log = some (file ++ failed.bytes)
        ∧ s.size = file.length ∧ Index.ofRecords rs = s.index.add failed) :
    s.RecoversFrom d culprit d' where
  opens directory options := by
    obtain ⟨s', warnings, heq, -⟩ := (opening_ensures directory options hkeeps).run
    exact ⟨s', warnings, heq⟩
  entries directory options script s' warnings d'' hopen := by
    have hopened := (opening_survives directory options d').runWith script
    rw [hopen] at hopened
    obtain ⟨rs', hstep, hunique⟩ := hopened s' warnings rfl
    -- What is recovered is unique: the records that the disk keeps.
    rw [hunique rs hkeeps] at hrecords
    refine ⟨hstep.working, ?_⟩
    rw [hstep.entries_eq, hstep.index]
    exact hrecords

/-- **`OldOrNew`,** a store recovers from either. -/
theorem OldOrNew.recoversFrom (h : s.OldOrNew d d') (hcondition : s.Condition d rs culprit) :
    s.RecoversFrom d culprit d' := by
  obtain ⟨hdir, hfits, hindex, -⟩ := hcondition.facts
  have hentries : (Index.ofRecords rs).entries = s.entries := by rw [entries, hindex]
  rcases h.log with hold | hnew
  · have hsame : d.SameLog d' := ⟨h.directory, hold⟩
    cases culprit with
    | none =>
      have hstep : s.InStep d rs := hcondition
      exact recoversFrom_of_keeps (hsame.keeps hstep.keeps) (.inl hentries)
    | some failed =>
      have htorn : s.Torn d rs failed := hcondition
      obtain ⟨file, part, hlog, hholds, hsize, hbegins⟩ := htorn.log
      by_cases hwhole : part = failed.bytes
      · -- The whole record is in the log, so it is found there.
        subst hwhole
        have hkeeps : d.Keeps (rs ++ [failed]) :=
          ⟨hdir, _, [], hlog, hholds.append htorn.fits⟩
        refine recoversFrom_of_keeps (hsame.keeps hkeeps)
          (.inr ⟨failed, file, rfl, hold, hlog, hsize, ?_⟩)
        rw [Index.ofRecords_append, hindex]
      · have hkeeps : d.Keeps rs :=
          ⟨hdir, _, part, hlog, hholds.torn htorn.fits hbegins hwhole⟩
        exact recoversFrom_of_keeps (hsame.keeps hkeeps) (.inl hentries)
  · have hkeeps : d'.Keeps (Index.puts s.entries) :=
      ⟨h.directory.trans hdir, _, [], hnew, holds_image hfits⟩
    exact recoversFrom_of_keeps hkeeps (.inl (Index.entries_ofRecords_puts s.entries))

/-- The log that a compaction writes is no longer than the one it replaces. -/
theorem Condition.length_log_le (h : s.Condition d rs culprit) : s.entries.log.length ≤ s.size := by
  obtain ⟨-, -, hindex, hsize⟩ := h.facts
  have hle := Log.length_bytes_le (Index.puts_subperm rs)
  rw [← hindex, Log.length_bytes] at hle
  rw [hsize, Entries.length_log]
  exact Nat.add_le_add_left hle 16

/-- A store `InStep` with `s.entries.log` has been `Rewritten`. -/
theorem rewritten_of_inStep (hcondition : s.Condition d rs culprit)
    (hstep : s.compacted.InStep d' (Index.puts s.entries)) (hlog : d'.log = some s.entries.log) :
    s.Rewritten d s.compacted d' where
  get id := rfl
  count := rfl
  scan := rfl
  garbage := rfl
  log := hlog
  size := s.entries.length_log
  length := by rw [hlog]; rfl
  -- The live records are among all the records, so the rewritten log is no longer than the old.
  smaller := hcondition.length_log_le
  writes := hstep.takesWrites hlog

/-- A store with the `SameLog` has been `Spared`. -/
theorem spared_of_sameLog (hcondition : s.Condition d rs culprit) (unsynced : Bool)
    (hd : d.SameLog d') : s.Spared d { s with unsynced } d' where
  store := ⟨unsynced, rfl⟩
  log := hd
  -- A broken store takes no writes, so only the one in step is left to consider.
  writes hworks := by
    cases culprit with
    | some failed =>
      have htorn : s.Torn d rs failed := hcondition
      exact absurd htorn.broken (by simp [hworks])
    | none =>
      have hstep : s.InStep d rs := hcondition
      obtain ⟨file, hlog, -⟩ := hstep.log
      exact ⟨file, hlog, ((hstep.synced unsynced).sameLog hd).takesWrites (hd.log.trans hlog)⟩

/-- **Compaction is atomic and keeps the content.** Whatever was done to the store before and
    whichever file operations fail, a call that comes to compact the log ends in one of two ways:
    with success, and the log is rewritten; or with the error of a file operation, and store and
    log are spared.  Wherever the process dies on the way, after whatever failures, the old log or
    the new one is in its place, and the store recovers from either.  A temporary file that was left
    behind changes nothing, whether a store is opened later or called. -/
theorem compaction_atomic (h : Reached s d culprit) {c : LogCall} (hc : s.compactsOn c = true) :
    (∀ script answer s' d', (s.respond c).runWith script d = ((answer, s'), d')
        → answer = .ok () ∧ s.Rewritten d s' d' ∨ answer = .error ioFailure ∧ s.Spared d s' d')
      ∧ (∀ script kept, s.OldOrNew d ((s.respond c).diesWith script kept d))
      ∧ (∀ d', s.OldOrNew d d' → s.RecoversFrom d culprit d')
      ∧ (∀ d₁ d₂, d₁.UpToTemp d₂
        → (∀ directory options script,
            ((opening directory options d₂).runWith script d₂).1
                = ((opening directory options d₁).runWith script d₁).1
              ∧ ((opening directory options d₁).runWith script d₁).2.SameLog
                ((opening directory options d₂).runWith script d₂).2)
          ∧ ∀ (t : LogStore) (call : LogCall) script,
            ((t.respond call).runWith script d₂).1 = ((t.respond call).runWith script d₁).1
              ∧ ((t.respond call).runWith script d₁).2.SameLog
                ((t.respond call).runWith script d₂).2) := by
  obtain ⟨rs, hcondition⟩ := condition_of_reached h
  obtain ⟨hdir, hfits, -, -⟩ := hcondition.facts
  have hsurvives := compacting_survives hc hdir hfits
  refine ⟨?_, ?_, ?_, ?_⟩
  · intro script answer s' d' hrun
    have hended := hsurvives.runWith script
    rw [hrun] at hended
    cases hended with
    | rewritten hstep hlog => exact .inl ⟨rfl, rewritten_of_inStep hcondition hstep hlog⟩
    | kept unsynced hd => exact .inr ⟨rfl, spared_of_sameLog hcondition unsynced hd⟩
  · intro script kept
    obtain ⟨result, hended⟩ := hsurvives.diesWith script kept
    cases hended with
    | rewritten hstep hlog => exact ⟨hstep.directory.trans hdir.symm, .inr hlog⟩
    | kept unsynced hd => exact ⟨hd.directory, .inl hd.log⟩
  · exact fun d' hd' => hd'.recoversFrom hcondition
  · intro d₁ d₂ hd
    refine ⟨fun directory options script => ?_, fun t call script => ?_⟩
    · -- What an opening does depends on the disk it finds by the log alone.
      have hfound : opening directory options d₂ = opening directory options d₁ := by
        simp only [opening, hd.sameLog.log]
      rw [hfound]
      exact (heedless_opening directory options d₁).runWith hd script
    · exact (t.heedless_respond call).runWith hd script

/-- On a new disk: an entry is put twice, so one record of the log is dead.  The compaction takes it
    out, and if the process dies in it the entry is found all the same. -/
theorem compaction_atomic_overwritten :
    ∃ s d s' d', Reached s d none ∧ s.garbage = 1 ∧ s.size = 98
      ∧ (s.respond (.perform .compact)).runWith [] d = ((.ok (), s'), d')
      ∧ s.Rewritten d s' d' ∧ s'.size = 57
      ∧ ∀ script kept,
        s.RecoversFrom d none ((s.respond (.perform .compact)).diesWith script kept d) := by
  have hopen : (opening "batches" ⟨.always, .zero, 1, default⟩ .fresh).runWith [] .fresh
      = (.ok (opened "batches/batchlog.log" ⟨.always, .zero, 1, default⟩ .empty Header.length, []),
        ⟨.present, some Header.current.encode, .free, none⟩) := rfl
  -- Putting the same entry twice makes one dead record, of which compaction is to get rid.
  have honce : ∀ (s s' : LogStore) (d d' : Disk),
      (s.respond (.perform (.put default))).runWith [] d = ((.ok (), s'), d') → s'.broken = false
      → Reached s d none → Reached s' d' none := by
    intro s s' d d' hcall hworks hreached
    have hnext := Reached.called hreached hcall
    rwa [hworks, if_neg Bool.false_ne_true] at hnext
  have hreached := honce _ _ _ _ rfl rfl (honce _ _ _ _ rfl rfl (.opened hopen))
  refine ⟨_, _, _, _, hreached, rfl, rfl, rfl, ?_, rfl, fun script kept => ?_⟩
  · obtain ⟨hends, -⟩ := compaction_atomic hreached (c := .perform .compact) rfl
    rcases hends [] (.ok ()) _ _ rfl with ⟨-, hrewritten⟩ | ⟨herror, -⟩
    · exact hrewritten
    · simp at herror
  · obtain ⟨-, hdies, hrecovers, -⟩ := compaction_atomic hreached (c := .perform .compact) rfl
    exact hrecovers _ (hdies script kept)

/-! ### A store that its own log outruns -/

/-- A store in mode `always` after its first put: the sync failed and so did the cut. -/
def unsyncedStore : LogStore :=
  { opened "batches/batchlog.log" ⟨.always, .zero, 1, default⟩ .empty Header.length with
    handle := ⟨57, true⟩, unsynced := true, broken := true }

/-- The disk of `unsyncedStore`: the whole record of the put is in the log. -/
def unsyncedDisk : Disk :=
  ⟨.present, some (Header.current.encode ++ Log.bytes [.put default]), .free, none⟩

theorem reached_unsynced : Reached unsyncedStore unsyncedDisk (some (.put default)) := by
  have hopen : (opening "batches" ⟨.always, .zero, 1, default⟩ .fresh).runWith [] .fresh
      = (.ok (opened "batches/batchlog.log" ⟨.always, .zero, 1, default⟩ .empty Header.length, []),
        ⟨.present, some Header.current.encode, .free, none⟩) := rfl
  have hput : ((opened "batches/batchlog.log" ⟨.always, .zero, 1, default⟩ .empty
        Header.length).respond (.perform (.put default))).runWith [none, some 0, some 0]
        ⟨.present, some Header.current.encode, .free, none⟩
      = ((.error ioFailure, unsyncedStore), unsyncedDisk) := rfl
  exact Reached.called (Reached.opened hopen) hput

/-- **An old log that gains an entry.**  `unsyncedStore` does not have the entry whose put broke it.
    If its compaction fails at `Effect.createTemp`, the old log stays and is opened with the entry;
    if it succeeds, the new log is opened without. -/
theorem old_log_gains_failed_put :
    ∃ s d s₁ d₁ s₂ d₂ s₁' s₂' warnings₁ warnings₂, Reached s d (some (.put default))
      ∧ (s.respond (.perform .compact)).runWith [none, some 0] d = ((.error ioFailure, s₁), d₁)
      ∧ openOn "batches" s.options d₁ = (.ok (s₁', warnings₁), d₁)
      ∧ (s.respond (.perform .compact)).runWith [] d = ((.ok (), s₂), d₂)
      ∧ openOn "batches" s.options d₂ = (.ok (s₂', warnings₂), d₂)
      ∧ s.entries.get? default = none ∧ s₁'.entries.get? default = some default
      ∧ s₂'.entries.get? default = none := by
  -- The log that is spared holds one record, and the one that is written none.
  have hopens : ∀ (d : Disk) (rs : List Record), d.directory = .present →
      d.log = some (Header.current.encode ++ Log.bytes rs) → (∀ r ∈ rs, r.Fits) →
      ∃ s warnings, openOn "batches" unsyncedStore.options d = (.ok (s, warnings), d)
        ∧ s.entries = (Index.ofRecords rs).entries := by
    intro d rs hdir hlog hfits
    have hlongest : Log.Longest (Log.bytes rs ++ []) rs [] := Log.longest_iff.2 ⟨rfl, hfits, rfl⟩
    obtain ⟨s, hopens⟩ := opensOn_of_longest Header.opens_current hlongest hdir
      (by rw [hlog, List.append_nil]) "batches" unsyncedStore.options
    obtain ⟨warnings, hopen, -⟩ := hopens.opens
    have hsame : { d with log := some (Header.current.encode ++ Log.bytes rs) } = d := by
      rw [← hlog]
    rw [hsame] at hopen
    exact ⟨s, warnings, hopen, congrArg Index.entries hopens.index_eq⟩
  obtain ⟨s₁', warnings₁, hopen₁, hentries₁⟩ := hopens unsyncedDisk [.put default] rfl rfl (by decide)
  obtain ⟨s₂', warnings₂, hopen₂, hentries₂⟩ := hopens
    ⟨.present, some (Header.current.encode ++ Log.bytes []), .free, none⟩ [] rfl rfl nofun
  refine ⟨unsyncedStore, unsyncedDisk, _, _, _, _, s₁', s₂', warnings₁, warnings₂, reached_unsynced,
    rfl, hopen₁, rfl, hopen₂, rfl, ?_, ?_⟩
  · rw [hentries₁]
    decide
  · rw [hentries₂]
    decide

end LogStore

end BatchJournal
