import BatchJournal.Proofs.Store.Failures

namespace BatchJournal

/-!
# A write that fails

A store is used by any calls while any file operation may fail (`LogStore.Reached`).  A put or a
delete that fails leaves it as it was; if it could not even restore the log, the store refuses all
writes until the log is compacted or opened again, and opening it then finds the entries without
the operation whose failure broke the store, or with it.

* `LogStore.condition_of_reached` — what is known of a store that was reached.
* `LogStore.Refuses` — what a broken store does.
* `LogStore.unchanged_of_failed_write` — what a write that fails leaves behind.
-/

/-- What is asked of a log store. -/
inductive LogCall where
  /-- An operation. -/
  | perform (op : StoreOp)
  /-- The sync that it does by itself. -/
  | sync

/-- The record that an operation appends. -/
def StoreOp.record? : StoreOp → Option Record
  | .put e => some (.put e)
  | .delete id => some (.delete id)
  | .flush | .compact => none

/-- The record that a call appends. -/
def LogCall.record? : LogCall → Option Record
  | .perform op => op.record?
  | .sync => none

namespace LogStore

/-- A call, carried out as a `Program`. -/
def respond (s : LogStore) : LogCall → Program (Except StoreError Unit × LogStore)
  | .perform op => s.program op
  | .sync => s.syncPending

/-- The call comes to compact the log: it asks for it, or a `flush` finds it due. -/
def compactsOn (s : LogStore) : LogCall → Bool
  | .perform .compact => true
  | .perform .flush => s.options.compactionDue s.index.records s.index.dead
  | _ => false

/-! ### What can be reached -/

/-- **The states that a store can come to:** it was opened on whatever was found, and then called in
    any way, while any file operation may have failed.  Of a broken store the last argument is the
    record of the operation whose failure broke it. -/
inductive Reached : LogStore → Disk → Option Record → Prop
  /-- A store was opened. -/
  | opened {directory : String} {options : StoreOptions} {found d : Disk}
      {script : List (Option Nat)} {s : LogStore} {warnings : List Warning}
      (hopen : (opening directory options found).runWith script found = (.ok (s, warnings), d)) :
      Reached s d none
  /-- It was called. -/
  | called {s s' : LogStore} {d d' : Disk} {culprit : Option Record} {c : LogCall}
      {script : List (Option Nat)} {answer : Except StoreError Unit} (h : Reached s d culprit)
      (hcall : (s.respond c).runWith script d = ((answer, s'), d')) :
      Reached s' d' (if s'.broken then if s.broken then culprit else c.record? else none)

/-- A store is `InStep` with its disk, or `Torn` by a record that it could not write. -/
def Condition (s : LogStore) (d : Disk) (rs : List Record) : Option Record → Prop
  | none => s.InStep d rs
  | some failed => s.Torn d rs failed

variable {s s' : LogStore} {d d' : Disk} {rs : List Record} {r failed : Record}

/-- A write is `append` of its record, or there is nothing to delete. -/
theorem program_of_record {op : StoreOp} (h : op.record? = some r) :
    s.program op = s.append r ∨ s.program op = pure (.ok (), s) := by
  cases op with
  | put e =>
    obtain rfl := Option.some.inj h
    exact .inl rfl
  | delete id =>
    obtain rfl := Option.some.inj h
    -- A delete of a missing id appends nothing and succeeds.
    by_cases hid : s.entries.contains id = true
    · exact .inl (if_pos hid)
    · exact .inr (if_neg hid)
  | flush => simp [StoreOp.record?] at h
  | compact => simp [StoreOp.record?] at h

/-- So is a call that has a `record?`. -/
theorem respond_of_record {c : LogCall} (h : c.record? = some r) :
    s.respond c = s.append r ∨ s.respond c = pure (.ok (), s) := by
  cases c with
  | perform op => exact program_of_record h
  | sync => simp [LogCall.record?] at h

/-- Such a call does not come to compact the log. -/
theorem compactsOn_of_record {c : LogCall} (h : c.record? = some r) : s.compactsOn c = false := by
  cases c with
  | perform op =>
    cases op with
    | put e | delete id => rfl
    | flush | compact => simp [LogCall.record?, StoreOp.record?] at h
  | sync => rfl

/-- A call that appends nothing and does not compact the log changes nothing but `unsynced`. -/
theorem idle_survives {c : LogCall} (hc : c.record? = none) (hnot : s.compactsOn c = false)
    (hdir : d.directory = .present) (hfits : ∀ r ∈ Index.puts s.entries, r.Fits) :
    (s.respond c).Survives
      (fun result d' => (∃ unsynced, result.2 = { s with unsynced }) ∧ d' = d) d := by
  cases c with
  | sync =>
    simp only [respond, syncPending]
    split
    · exact sync_survives s d
    · exact ⟨⟨s.unsynced, rfl⟩, rfl⟩
  | perform op =>
    cases op with
    | put e => simp [LogCall.record?, StoreOp.record?] at hc
    | delete id => simp [LogCall.record?, StoreOp.record?] at hc
    | compact => simp [compactsOn] at hnot
    | flush =>
      refine (flush_survives hdir hfits).mono fun result d' h => ?_
      -- No compaction was due, so the flush was the sync alone.
      have hdue : ¬ s.options.compactionDue s.index.records s.index.dead = true :=
        Bool.eq_false_iff.1 hnot
      rwa [if_neg hdue] at h

/-- A call that comes to compact the log is `Compacted` or leaves it. -/
theorem compacting_survives {c : LogCall} (hc : s.compactsOn c = true)
    (hdir : d.directory = .present) (hfits : ∀ r ∈ Index.puts s.entries, r.Fits) :
    (s.respond c).Survives (Compacted s d) d := by
  cases c with
  | sync => simp [compactsOn] at hc
  | perform op =>
    cases op with
    | put e => simp [compactsOn] at hc
    | delete id => simp [compactsOn] at hc
    | compact => exact compact_survives hdir hfits
    | flush =>
      refine (flush_survives hdir hfits).mono fun result d' h => ?_
      have hdue : s.options.compactionDue s.index.records s.index.dead = true := hc
      rwa [if_pos hdue] at h

/-! ### Steps -/

/-- **A call of a working store** leaves it `InStep`, or `Torn` over the record it appends. -/
theorem call_inStep (h : s.InStep d rs) (c : LogCall) :
    (s.respond c).Survives
      (fun result d' =>
        (∃ rs', result.2.InStep d' rs') ∨ ∃ r, c.record? = some r ∧ result.2.Torn d' rs r) d := by
  -- A call that appends may tear the store; one that rewrites or syncs cannot.
  cases hc : c.record? with
  | some r =>
    rcases respond_of_record (s := s) hc with hrespond | hrespond
    · rw [hrespond]
      refine (append_survives h r).mono ?_
      rintro result d' (⟨hstep, -⟩ | ⟨e, hstep, -, -⟩ | ⟨e, htorn, -⟩)
      · exact .inl ⟨_, hstep⟩
      · exact .inl ⟨_, hstep⟩
      · exact .inr ⟨r, rfl, htorn⟩
    · -- Nothing to delete: the call does nothing at all.
      rw [hrespond, Program.survives_pure]
      exact .inl ⟨rs, h⟩
  | none =>
    by_cases hcompacts : s.compactsOn c = true
    · refine (compacting_survives hcompacts h.directory h.fits).mono ?_
      rintro result d' (⟨hstep, -⟩ | ⟨unsynced, hd⟩)
      · exact .inl ⟨_, hstep⟩
      · exact .inl ⟨rs, (h.synced unsynced).sameLog hd⟩
    · refine (idle_survives hc (Bool.eq_false_iff.2 hcompacts) h.directory h.fits).mono ?_
      rintro result d' ⟨⟨unsynced, heq⟩, rfl⟩
      rw [heq]
      exact .inl ⟨rs, h.synced unsynced⟩

/-- **A call of a broken store** compacts the log with success, and the store works again, or leaves
    it `Torn` as it was. -/
theorem call_torn (h : s.Torn d rs failed) (c : LogCall) :
    (s.respond c).Survives
      (fun result d' =>
        (s.compactsOn c = true ∧ result.1 = .ok () ∧ result.2.InStep d' (Index.puts s.entries))
          ∨ ¬ (s.compactsOn c = true ∧ result.1 = .ok ()) ∧ d.SameLog d'
            ∧ ∃ unsynced, result.2 = { s with unsynced }) d := by
  cases hc : c.record? with
  | some r =>
    -- The store refuses the record, or there is nothing to delete; neither changes anything.
    have hidle : ∃ answer, s.respond c = pure (answer, s) := by
      rcases respond_of_record (s := s) hc with hrespond | hrespond
      · exact ⟨_, hrespond.trans (append_of_broken h.broken r)⟩
      · exact ⟨_, hrespond⟩
    obtain ⟨answer, hrespond⟩ := hidle
    rw [hrespond, Program.survives_pure]
    exact .inr ⟨by simp [compactsOn_of_record hc], .refl d, s.unsynced, rfl⟩
  | none =>
    by_cases hcompacts : s.compactsOn c = true
    · refine (compacting_survives hcompacts h.directory h.fits_entries).mono ?_
      rintro result d' (⟨hstep, -⟩ | ⟨unsynced, hd⟩)
      · exact .inl ⟨hcompacts, rfl, hstep⟩
      · exact .inr ⟨by simp, hd, unsynced, rfl⟩
    · refine (idle_survives hc (Bool.eq_false_iff.2 hcompacts) h.directory h.fits_entries).mono ?_
      rintro result d' ⟨hs, rfl⟩
      exact .inr ⟨fun hboth => hcompacts hboth.1, .refl d', hs⟩

/-- **What is known of a store that was `Reached`:** its `Condition`. -/
theorem condition_of_reached {culprit : Option Record} (h : Reached s d culprit) :
    ∃ rs, s.Condition d rs culprit := by
  induction h with
  | @opened directory options found d script s warnings hopen =>
    have hopened := (opening_survives directory options found).runWith script
    rw [hopen] at hopened
    obtain ⟨rs, hstep, -⟩ := hopened _ _ rfl
    exact ⟨rs, hstep⟩
  | @called s s' d d' culprit c script answer h hcall ih =>
    obtain ⟨rs, hcondition⟩ := ih
    -- A store without a culprit works; one with a culprit is torn until it is compacted.
    cases culprit with
    | none =>
      have hstep : s.InStep d rs := hcondition
      have hcalled := (call_inStep hstep c).runWith script
      rw [hcall] at hcalled
      rcases hcalled with ⟨rs', hstep'⟩ | ⟨r, hr, htorn⟩
      · have hworks : s'.broken = false := hstep'.working
        rw [hworks, if_neg Bool.false_ne_true]
        exact ⟨rs', hstep'⟩
      · rw [if_pos htorn.broken, if_neg (by simp [hstep.working]), hr]
        exact ⟨rs, htorn⟩
    | some failed =>
      have htorn : s.Torn d rs failed := hcondition
      have hcalled := (call_torn htorn c).runWith script
      rw [hcall] at hcalled
      rcases hcalled with ⟨-, -, hstep⟩ | ⟨-, hd, unsynced, rfl⟩
      · have hworks : s'.broken = false := hstep.working
        rw [hworks, if_neg Bool.false_ne_true]
        exact ⟨_, hstep⟩
      · rw [if_pos htorn.broken, if_pos htorn.broken]
        exact ⟨rs, (htorn.synced unsynced).sameLog hd⟩

/-! ### Broken stores -/

/-- **What a store can come to without a compaction** by calls in which any file operation may
    fail. -/
inductive Later (s : LogStore) (d : Disk) : LogStore → Disk → Prop
  /-- Nothing was called yet. -/
  | refl : Later s d s d
  /-- It was called, and the call did not compact the log with success. -/
  | called {s' s'' : LogStore} {d' d'' : Disk} {c : LogCall} {script : List (Option Nat)}
      {answer : Except StoreError Unit} (h : Later s d s' d')
      (hcall : (s'.respond c).runWith script d' = ((answer, s''), d''))
      (hnot : ¬ (s'.compactsOn c = true ∧ answer = .ok ())) : Later s d s'' d''

/-- **A store that refuses writes,** broken by the failure to write the record `failed`. -/
structure Refuses (s : LogStore) (d : Disk) (failed : Record) : Prop where
  /-- It refuses every put, and nothing changes. -/
  puts : ∀ e script, (s.put e).runWith script d = ((.error refusal, s), d)
  /-- It refuses every delete of an entry that it has, and nothing changes. -/
  deletes : ∀ id script, s.entries.contains id = true
    → (s.delete id).runWith script d = ((.error refusal, s), d)
  /-- Once the log was compacted with success the store works again, with the same entries. -/
  compaction : ∀ c script s' d', s.compactsOn c = true
    → (s.respond c).runWith script d = ((.ok (), s'), d')
    → s'.broken = false ∧ s'.entries = s.entries
  /-- The log can be opened again. -/
  opens : ∀ directory options, ∃ s' warnings, (openOn directory options d).1 = .ok (s', warnings)
  /-- A store opened on it works, and has the index of this one, without the record or with it. -/
  reopened : ∀ directory options script s' warnings d',
    (opening directory options d).runWith script d = (.ok (s', warnings), d')
    → s'.broken = false ∧ (s'.index = s.index ∨ s'.index = s.index.add failed)

/-- A store that is `Torn` refuses writes. -/
theorem Torn.refuses (h : s.Torn d rs failed) : s.Refuses d failed where
  puts e script := by
    rw [put, append_of_broken h.broken, Program.runWith_pure]
  deletes id script hid := by
    rw [delete, if_pos hid, append_of_broken h.broken, Program.runWith_pure]
  compaction c script s' d' hc hcall := by
    have hcalled := (call_torn h c).runWith script
    rw [hcall] at hcalled
    rcases hcalled with ⟨-, -, hstep⟩ | ⟨hnot, -⟩
    · exact ⟨hstep.working, hstep.entries_eq.trans (Index.entries_ofRecords_puts s.entries)⟩
    · exact absurd ⟨hc, rfl⟩ hnot
  opens directory options := by
    rcases h.keeps with hkeeps | hkeeps
    all_goals
      obtain ⟨s', warnings, heq, -⟩ := (opening_ensures directory options hkeeps).run
      exact ⟨s', warnings, heq⟩
  reopened directory options script s' warnings d' hopen := by
    have hopened := (opening_survives directory options d).runWith script
    rw [hopen] at hopened
    obtain ⟨rs', hstep, hunique⟩ := hopened s' warnings rfl
    refine ⟨hstep.working, ?_⟩
    rw [hstep.index, h.index, ← Index.ofRecords_append]
    -- The log parses in one way only, so what was found decides between the two.
    rcases h.keeps with hkeeps | hkeeps
    · exact .inl (by rw [hunique _ hkeeps])
    · exact .inr (by rw [hunique _ hkeeps])

/-- A store that is `Torn` stays so until the log is compacted. -/
theorem Torn.later (h : s.Torn d rs failed) (hlater : Later s d s' d') :
    s'.Torn d' rs failed ∧ s'.index = s.index ∧ s'.size = s.size := by
  induction hlater with
  | refl => exact ⟨h, rfl, rfl⟩
  | @called s₁ s₂ d₁ d₂ c script answer hlater hcall hnot ih =>
    obtain ⟨htorn, hindex, hsize⟩ := ih
    have hcalled := (call_torn htorn c).runWith script
    rw [hcall] at hcalled
    rcases hcalled with ⟨hcompacts, hok, -⟩ | ⟨-, hd, unsynced, rfl⟩
    · exact absurd ⟨hcompacts, hok⟩ hnot
    · exact ⟨(htorn.synced unsynced).sameLog hd, hindex, hsize⟩

/-! ### Failed writes -/

/-- **A write that fails leaves the store as it was.** Whatever was done to the store before and
    whichever file operations fail, a put or a delete that fails changes neither the index nor the
    size.  Then the log is as it was and the next record goes to its end; or the store is broken,
    over this write if it was not broken before.  A broken store refuses every put and every delete
    of an entry that it has until the log is compacted or opened again, and what is opened then has
    the index as it was, or this index with the operation that broke the store. -/
theorem unchanged_of_failed_write {culprit : Option Record} (h : Reached s d culprit) {op : StoreOp}
    (hop : op.record? = some r) {script : List (Option Nat)} {err : StoreError}
    (hfail : (s.program op).runWith script d = ((.error err, s'), d')) :
    s'.index = s.index ∧ s'.size = s.size
      ∧ ((s'.broken = false ∧ d'.log = d.log
            ∧ (∃ file, d.log = some file ∧ s'.handle = ⟨file.length, true⟩)
            ∧ ∀ r' script' s'' d'', (s'.append r').runWith script' d' = ((.ok (), s''), d'')
              → d''.log = d.log.map (· ++ r'.bytes))
          ∨ (s'.broken = true
            ∧ ∃ failed, (if s.broken then culprit = some failed else failed = r)
              ∧ ∀ s'' d'', Later s' d' s'' d''
                → s''.index = s.index ∧ s''.size = s.size ∧ s''.Refuses d'' failed)) := by
  obtain ⟨rs, hcondition⟩ := condition_of_reached h
  rcases program_of_record (s := s) hop with hprogram | hprogram
  · rw [hprogram] at hfail
    cases culprit with
    | none =>
      have hstep : s.InStep d rs := hcondition
      have happended := (append_survives hstep r).runWith script
      rw [hfail] at happended
      cases happended with
      | restored e hstep' hlog hsize =>
        -- The store is in step again, so its next append is one at the end of the old log.
        obtain ⟨file, hfile, hholds, hend⟩ := hstep'.log
        refine ⟨hstep'.index.trans hstep.index.symm, hsize, .inl ⟨hstep'.working, hlog,
          ⟨file, hlog ▸ hfile, by rw [hstep'.handle, hend]⟩, ?_⟩⟩
        intro r' script' s'' d'' hnext
        have hwritten := (append_survives hstep' r').runWith script'
        rw [hnext] at hwritten
        cases hwritten with
        | written _ hlog' => rw [hlog', hlog]
      | torn e htorn hsize =>
        refine ⟨htorn.index.trans hstep.index.symm, hsize, .inr ⟨htorn.broken, r, ?_, ?_⟩⟩
        · rw [if_neg (by simp [hstep.working])]
        · intro s'' d'' hlater
          obtain ⟨htorn', hindex, hsize'⟩ := htorn.later hlater
          exact ⟨by rw [hindex, htorn.index, hstep.index], hsize'.trans hsize, htorn'.refuses⟩
    | some failed =>
      -- The store was broken before, and refuses without an effect.
      have htorn : s.Torn d rs failed := hcondition
      rw [append_of_broken htorn.broken, Program.runWith_pure] at hfail
      obtain ⟨hresult, rfl⟩ := Prod.mk.inj hfail
      obtain ⟨-, rfl⟩ := Prod.mk.inj hresult
      refine ⟨rfl, rfl, .inr ⟨htorn.broken, failed, by rw [if_pos htorn.broken], ?_⟩⟩
      intro s'' d'' hlater
      obtain ⟨htorn', hindex, hsize⟩ := htorn.later hlater
      exact ⟨hindex, hsize, htorn'.refuses⟩
  · -- The deletion of an entry that is not there succeeds.
    rw [hprogram, Program.runWith_pure] at hfail
    simp at hfail

/-- On a new disk: the sync of a put fails and so does the cut, so the store is broken with the
    whole record in its log. -/
theorem unchanged_of_failed_write_unsynced :
    ∃ s d s' d', Reached s d none
      ∧ (s.program (.put default)).runWith [none, some 0, some 0] d = ((.error ioFailure, s'), d')
      ∧ s'.index = s.index ∧ s'.broken = true
      ∧ d'.log = d.log.map (· ++ (Record.put default).bytes)
      ∧ s'.Refuses d' (.put default) := by
  have hopen : (opening "batches" ⟨.always, .zero, 1, default⟩ .fresh).runWith [] .fresh
      = (.ok (opened "batches/batchlog.log" ⟨.always, .zero, 1, default⟩ .empty Header.length, []),
        ⟨.present, some Header.current.encode, .free, none⟩) := rfl
  have hreached := Reached.opened hopen
  have hput : StoreOp.record? (.put default) = some (.put default) := rfl
  -- The sync fails, and then the cut that was to take the record back.
  have hfail : ((opened "batches/batchlog.log" ⟨.always, .zero, 1, default⟩ .empty
        Header.length).program (.put default)).runWith [none, some 0, some 0]
        ⟨.present, some Header.current.encode, .free, none⟩
      = ((.error ioFailure, _), _) := rfl
  refine ⟨_, _, _, _, hreached, hfail, ?_⟩
  obtain ⟨hindex, -, hlog⟩ := unchanged_of_failed_write hreached hput hfail
  -- The store did break, which leaves the second alternative.
  rcases hlog with ⟨hworks, -⟩ | ⟨hbroken, failed, rfl, hrefuses⟩
  · exact absurd hworks (by decide)
  · exact ⟨hindex, hbroken, rfl, (hrefuses _ _ .refl).2.2⟩

end LogStore

end BatchJournal
