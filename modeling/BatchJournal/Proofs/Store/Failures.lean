import BatchJournal.Proofs.Store.Reopening

namespace BatchJournal

/-!
# Log stores whose file operations fail

Any call to the file system can fail, a write after any part of its bytes.  `Program.Survives` says
what a program comes to whichever of its effects fail.  An append then ends in one of three ways:
the record is in the log; the log is as before; or what was written of the record could not be cut
off again, and the store takes no more writes (`LogStore.Torn`).

* `Program.Survives.runWith`, `Program.Survives.diesWith` — what holds under every script of
  failures, at the end of the program and where its process dies on the way.
* `LogStore.append_survives`, `LogStore.compact_survives` — appending and compacting.
* `LogStore.opening_survives` — a store that is opened at all is in step with its disk.
-/

namespace Program

variable {α β : Type} {after after' : α → Disk → Prop}

/-- **A program that is broken off** by the death of its process after some of its effects may have
    failed: the script is that of the effects before, and of the next one `kept` bytes are there. -/
def diesWith : List (Option Nat) → Nat → Program α → Disk → Disk
  | _, _, .done _, d => d
  | [], kept, .perform e _, d => d.partway kept e
  | failure :: script, kept, .perform e next, d =>
    let (ok, d') := d.attemptWith failure e
    (next ok).diesWith script kept d'

/-- **What a program comes to under failures,** whichever of its effects fail and however much of
    them is done then: `after` holds wherever it ends. -/
def Survives (after : α → Disk → Prop) : Program α → Disk → Prop
  | .done a, d => after a d
  | .perform e next, d =>
    (next (d.attempt e).1).Survives after (d.attempt e).2
      ∧ ∀ kept, (next false).Survives after (d.partway kept e)

@[simp] theorem survives_pure (a : α) (d : Disk) :
    (pure a : Program α).Survives after d ↔ after a d := Iff.rfl

@[simp] theorem survives_effect (e : Effect) (after : Bool → Disk → Prop) (d : Disk) :
    (effect e).Survives after d
      ↔ after (d.attempt e).1 (d.attempt e).2 ∧ ∀ kept, after false (d.partway kept e) := Iff.rfl

@[simp] theorem survives_bind (p : Program α) (f : α → Program β) (after : β → Disk → Prop)
    (d : Disk) :
    (p >>= f).Survives after d ↔ p.Survives (fun a d' => (f a).Survives after d') d := by
  show (p.bind f).Survives after d ↔ _
  induction p generalizing d with
  | done a => exact Iff.rfl
  | perform e next ih => exact and_congr (ih _ _) (forall_congr' fun kept => ih _ _)

@[simp] theorem runWith_pure (a : α) (script : List (Option Nat)) (d : Disk) :
    (pure a : Program α).runWith script d = (a, d) := by
  cases script <;> rfl

theorem Survives.mono {p : Program α} {d : Disk} (h : p.Survives after d)
    (hafter : ∀ a d, after a d → after' a d) : p.Survives after' d := by
  induction p generalizing d with
  | done a => exact hafter a d h
  | perform e next ih => exact ⟨ih _ h.1, fun kept => ih _ (h.2 kept)⟩

/-- **Every script of failures** leads to what the program `Survives` to. -/
theorem Survives.runWith {p : Program α} {d : Disk} (h : p.Survives after d)
    (script : List (Option Nat)) : after (p.runWith script d).1 (p.runWith script d).2 := by
  -- The script says for each effect in turn whether it is made to fail.
  induction p generalizing d script with
  | done a => cases script <;> exact h
  | perform e next ih =>
    cases script with
    | nil => exact ih _ h.1 []
    | cons failure script =>
      cases failure with
      | none => exact ih _ h.1 script
      | some kept => exact ih false (h.2 kept) script

/-- The effects of a program may all fail with nothing done: that leaves the disk. -/
theorem exists_runWith_eq (p : Program α) (d : Disk) :
    ∃ k, (p.runWith (List.replicate k (some 0)) d).2 = d := by
  induction p with
  | done a => exact ⟨0, rfl⟩
  | perform e next ih =>
    obtain ⟨k, hk⟩ := ih false
    refine ⟨k + 1, ?_⟩
    show ((next false).runWith (List.replicate k (some 0)) (d.partway 0 e)).2 = d
    rw [Disk.partway_zero]
    exact hk

/-- **A death** leaves the disk as some failures do: those of the effect that was broken off and of
    all that would have followed. -/
theorem exists_runWith_eq_diesWith (p : Program α) (script : List (Option Nat)) (kept : Nat)
    (d : Disk) :
    ∃ k, p.diesWith script kept d
      = (p.runWith (script ++ some kept :: List.replicate k (some 0)) d).2 := by
  -- Dying is failing from here on: every later effect of the failure handling fails as well.
  induction p generalizing d script with
  | done a => exact ⟨0, by cases script <;> rfl⟩
  | perform e next ih =>
    cases script with
    | nil =>
      obtain ⟨k, hk⟩ := (next false).exists_runWith_eq (d.partway kept e)
      exact ⟨k, hk.symm⟩
    | cons failure script => exact ih _ script _

/-- So `Survives` tells of deaths too. -/
theorem Survives.diesWith {p : Program α} {d : Disk} (h : p.Survives after d)
    (script : List (Option Nat)) (kept : Nat) : ∃ a, after a (p.diesWith script kept d) := by
  obtain ⟨k, heq⟩ := p.exists_runWith_eq_diesWith script kept d
  exact ⟨_, heq ▸ h.runWith _⟩

end Program

/-- Only of a write is a part done when it fails. -/
@[simp] theorem Disk.partway_cutLog (d : Disk) (kept : Nat) (h : Handle) (length : Nat) :
    d.partway kept (.cutLog h length) = d := rfl

@[simp] theorem Disk.partway_seekLog (d : Disk) (kept position : Nat) :
    d.partway kept (.seekLog position) = d := rfl

@[simp] theorem Disk.partway_syncLog (d : Disk) (kept : Nat) : d.partway kept .syncLog = d := rfl

/-- The log that has one put for each entry, in id order. -/
def Entries.log (es : Entries) : Bytes := Header.current.encode ++ Log.bytes (Index.puts es)

/-- A file `Holds` only one list of records. -/
theorem Log.Holds.records_eq {file tail tail' : Bytes} {rs rs' : List Record}
    (h : Holds file rs tail) (h' : Holds file rs' tail') : rs = rs' := by
  have hparsed := congrArg (fun p => p.records.map (·.1)) (h.parse_eq.symm.trans h'.parse_eq)
  simpa only [map_fst_parsed] using hparsed

namespace LogStore

/-- **A store that takes no more writes:** behind the records `rs` the log may have a part of the
    record `failed`, or the whole of it. -/
structure Torn (s : LogStore) (d : Disk) (rs : List Record) (failed : Record) : Prop where
  /-- The directory is there. -/
  directory : d.directory = .present
  /-- The log holds the records, then a beginning of the other one. -/
  log : ∃ file part, d.log = some (file ++ part) ∧ Log.Holds file rs [] ∧ s.size = file.length
    ∧ part <+: failed.bytes
  /-- The index is that of the records. -/
  index : s.index = .ofRecords rs
  /-- The other record could be written. -/
  fits : failed.Fits
  /-- The store takes no writes. -/
  broken : s.broken = true

variable {s : LogStore} {d : Disk} {rs : List Record} {failed : Record}

theorem Torn.keeps (h : s.Torn d rs failed) : d.Keeps rs ∨ d.Keeps (rs ++ [failed]) := by
  obtain ⟨file, part, hlog, hholds, -, hbegins⟩ := h.log
  have hkeeps := Disk.keeps_append_part h.directory hholds h.fits hbegins
  rwa [← hlog] at hkeeps

/-- Every entry of the store fits into a record. -/
theorem Torn.fits_entries (h : s.Torn d rs failed) : ∀ r ∈ Index.puts s.entries, r.Fits := by
  obtain ⟨file, part, -, hholds, -⟩ := h.log
  exact hholds.fits_puts h.index

theorem Torn.sameLog {d' : Disk} (h : s.Torn d rs failed) (hd : d.SameLog d') :
    s.Torn d' rs failed := by
  obtain ⟨file, part, hlog, hrest⟩ := h.log
  exact ⟨hd.directory.trans h.directory, ⟨file, part, hd.log.trans hlog, hrest⟩, h.index, h.fits,
    h.broken⟩

theorem Torn.synced (h : s.Torn d rs failed) (unsynced : Bool) :
    Torn { s with unsynced } d rs failed :=
  ⟨h.directory, h.log, h.index, h.fits, h.broken⟩

/-! ### Appending -/

/-- **How `append` ends** when file operations may fail. -/
inductive Appended (s : LogStore) (d : Disk) (rs : List Record) (r : Record) :
    Except StoreError Unit × LogStore → Disk → Prop
  /-- The record is in the log, behind what was there. -/
  | written {s' : LogStore} {d' : Disk} (hstep : s'.InStep d' (rs ++ [r]))
      (hlog : d'.log = d.log.map (· ++ r.bytes)) : Appended s d rs r (.ok (), s') d'
  /-- The log is as before. -/
  | restored {s' : LogStore} {d' : Disk} (e : StoreError) (hstep : s'.InStep d' rs)
      (hlog : d'.log = d.log) (hsize : s'.size = s.size) : Appended s d rs r (.error e, s') d'
  /-- The log could not be restored, and the store takes no more writes. -/
  | torn {s' : LogStore} {d' : Disk} (e : StoreError) (htorn : s'.Torn d' rs r)
      (hsize : s'.size = s.size) : Appended s d rs r (.error e, s') d'

/-- **An append that fails** leaves the index. -/
theorem Appended.index_eq {r : Record} {e : StoreError} {s' : LogStore} {d' : Disk}
    (h : s.InStep d rs) (happended : Appended s d rs r (.error e, s') d') : s'.index = s.index := by
  cases happended with
  | restored _ hstep _ _ => exact hstep.index.trans h.index.symm
  | torn _ htorn _ => exact htorn.index.trans h.index.symm

/-- After a part of the record was written, `rollback` restores log and store or fails. -/
theorem rollback_survives {s' : LogStore} {r : Record} {file part : Bytes} (h : s.InStep d rs)
    (hlog : d.log = some file) (hholds : Log.Holds file rs []) (hsize : s.size = file.length)
    (hr : r.Fits) (hpart : part <+: r.bytes) (e : StoreError)
    (hs' : ∃ unsynced position, s' = { s with unsynced, handle := ⟨position, true⟩ }) :
    s'.rollback.Survives (fun s'' d' => Appended s d rs r (.error e, s'') d')
      { d with log := some (file ++ part) } := by
  obtain ⟨unsynced, position, rfl⟩ := hs'
  have hcut : Disk.attempt { d with log := some (file ++ part) } (.cutLog ⟨position, true⟩ s.size)
      = (true, { d with log := some file }) := by
    rw [Disk.attempt_cutLog rfl (by simp [hsize]), hsize, List.take_left]
  have hbroken : ∀ rest, rest <+: r.bytes →
      Appended s d rs r
        (.error e, { s with unsynced, broken := true, handle := ⟨position, true⟩ })
        { d with log := some (file ++ rest) } :=
    fun rest hrest => .torn e ⟨h.directory, ⟨file, rest, rfl, hholds, hsize, hrest⟩, h.index, hr, rfl⟩
      rfl
  have huncut : Appended s d rs r
      (.error e, { s with unsynced, broken := true, handle := ⟨position, true⟩ })
      { d with log := some file } := by
    simpa using hbroken [] List.nil_prefix
  simp only [rollback, Program.survives_bind, Program.survives_effect, hcut, Bool.not_true,
    Bool.not_false, Bool.false_eq_true, if_false, if_true, Disk.attempt_seekLog,
    Disk.partway_cutLog, Disk.partway_seekLog, Program.survives_pure]
  -- If the cut fails all that was written stays; if only the seek fails nothing of it does.
  refine ⟨⟨?_, fun _ => huncut⟩, fun _ => hbroken part hpart⟩
  refine .restored e ?_ hlog.symm rfl
  exact
    { directory := h.directory
      log := ⟨file, rfl, hholds, hsize⟩
      index := h.index
      handle := rfl
      working := h.working }

/-- **`append` under failures** writes the record, or restores the log, or leaves the store
    `Torn`. -/
theorem append_survives (h : s.InStep d rs) (r : Record) :
    (s.append r).Survives (Appended s d rs r) d := by
  obtain ⟨file, hlog, hholds, hsize⟩ := h.log
  unfold append
  rw [if_neg (by simp [h.working])]
  by_cases hfits : r.Fits
  · have hhandle : s.handle = ⟨file.length, true⟩ := by rw [h.handle, hsize]
    have hback : ∀ (part : Bytes) (e : StoreError), part <+: r.bytes →
        s.rollback.Survives (fun s' d' => Appended s d rs r (.error e, s') d')
          { d with log := some (file ++ part) } :=
      fun part e hpart => rollback_survives h hlog hholds hsize hfits hpart e
        ⟨s.unsynced, file.length, by rw [← hhandle]⟩
    have hwritten := Disk.attempt_writeLog hlog r.bytes
    rw [← hhandle] at hwritten
    have hadmitted := d.admitted_prefix file.length r.bytes
    simp only [Record.encode_of_fits hfits, Program.survives_bind, Program.survives_effect]
    constructor
    · by_cases hall : (d.admitted file.length r.bytes).length = r.bytes.length
      · -- Everything was written; a sync that fails has it cut off again.
        have hbytes : d.admitted file.length r.bytes = r.bytes := hadmitted.eq_of_length hall
        rw [hbytes] at hwritten
        have hdone : ∀ unsynced : Bool,
            Appended s d rs r
              (.ok (),
                { s with
                  unsynced
                  handle := { s.handle with position := s.handle.position + r.bytes.length }
                }.appended r r.bytes.length)
              { d with log := some (file ++ r.bytes) } := by
          intro unsynced
          refine .written ?_ (by rw [hlog]; rfl)
          exact
            { directory := h.directory
              log := ⟨_, rfl, hholds.append hfits, by simp [appended, hsize]⟩
              index := by rw [appended, h.index, Index.ofRecords_append]
              handle := by simp [appended, h.handle]
              working := h.working }
        simp only [hwritten, decide_true, Bool.not_true, Bool.false_eq_true, if_false]
        split
        · simp only [Program.survives_bind, Program.survives_effect, Disk.attempt_syncLog,
            Disk.partway_syncLog, Bool.not_true, Bool.not_false, Bool.false_eq_true, if_false,
            if_true, Program.survives_pure]
          exact ⟨hdone false, fun _ => rollback_survives h hlog hholds hsize hfits List.prefix_rfl _
            ⟨true, file.length + r.bytes.length, by rw [hhandle]⟩⟩
        · exact hdone true
      · -- The disk was full before the end of the record.
        simp only [hwritten, hall, decide_false, Bool.not_false, if_true, Program.survives_bind,
          Program.survives_pure]
        exact hback _ _ hadmitted
    · -- The write was made to fail, after some of its bytes.
      intro kept
      obtain ⟨part, hbegins, heq⟩ := Disk.partway_writeLog hlog r.bytes kept
      rw [← hhandle] at heq
      simp only [heq, Bool.not_false, if_true, Program.survives_bind, Program.survives_pure]
      exact hback part _ hbegins
  · -- A record that is too large is refused before anything is written.
    simp only [Record.encode_eq, if_neg hfits, Program.survives_pure]
    exact .restored _ h rfl rfl

/-- Why a broken store refuses a write. -/
def refusal : StoreError := .unavailable "batch log refuses writes after a failed rollback"

/-- **A broken store refuses** to `append`. -/
theorem append_of_broken (h : s.broken = true) (r : Record) :
    s.append r = pure (.error refusal, s) := by
  unfold append
  rw [if_pos h]
  rfl

/-! ### Syncing and compacting -/

/-- `sync` changes nothing but `unsynced`. -/
theorem sync_survives (s : LogStore) (d : Disk) :
    s.sync.Survives (fun result d' => (∃ unsynced, result.2 = { s with unsynced }) ∧ d' = d) d := by
  simp only [sync, Program.survives_bind, Program.survives_effect, Disk.attempt_syncLog,
    Disk.partway_syncLog, Bool.false_eq_true, if_true, if_false, Program.survives_pure]
  exact ⟨⟨⟨false, rfl⟩, trivial⟩, fun _ => ⟨⟨s.unsynced, rfl⟩, trivial⟩⟩

/-- `close` leaves the disk as it is, whether the sync succeeds or not. -/
theorem close_survives (s : LogStore) (d : Disk) : s.close.Survives (fun _ d' => d' = d) d := by
  simp only [close, syncPending, Program.survives_bind, Program.survives_pure]
  split
  · exact (sync_survives s d).mono fun _ _ h => h.2
  · exact rfl

/-- `writeImage` leaves the log alone; it gives the image, or fails as a file operation does. -/
theorem writeImage_survives {es : Entries} (h : ∀ r ∈ Index.puts es, r.Fits) (d : Disk) :
    (writeImage es).Survives
      (fun result d' => d.SameLog d'
        ∧ (result = .ok es.log.length ∧ d'.temp = .file es.log ∨ result = .error ioFailure)) d := by
  have hcreated := d.sameLog_createTemp
  simp only [writeImage, Program.survives_bind, Program.survives_effect]
  -- Before the rename the log is untouched, so each failure leaves what was there.
  refine ⟨?_, fun _ => ⟨.refl d, .inr rfl⟩⟩
  by_cases hcreate : (d.attempt .createTemp).1 = true
  · have htemp := Disk.temp_createTemp hcreate
    generalize (d.attempt .createTemp).2 = d₁ at htemp hcreated
    have himage : image es = .ok es.log := image_eq h
    simp only [hcreate, himage, Bool.not_true, Bool.false_eq_true, if_false,
      Program.survives_bind, Program.survives_effect]
    have hwritten := hcreated.trans (d₁.sameLog_writeTemp es.log)
    -- A write broken off leaves part of the image in the temporary file, which the log never sees.
    refine ⟨?_, fun kept => ⟨hcreated.trans (d₁.sameLog_writeTemp (es.log.take kept)), .inr rfl⟩⟩
    by_cases hwrite : (d₁.attempt (.writeTemp es.log)).1 = true
    · have htemp₂ := Disk.temp_writeTemp htemp hwrite
      simp only [hwrite, Bool.not_true, Bool.not_false, Bool.false_eq_true, if_false, if_true,
        Program.survives_bind, Program.survives_effect, Program.survives_pure]
      exact ⟨⟨hwritten, .inl ⟨rfl, htemp₂⟩⟩, fun _ => ⟨hwritten, .inr trivial⟩⟩
    · simp only [hwrite, Bool.not_false, if_true, Program.survives_pure]
      exact ⟨hwritten, .inr trivial⟩
  · simp only [hcreate, Bool.not_false, if_true, Program.survives_pure]
    exact ⟨hcreated, .inr trivial⟩

/-- The store after its log was compacted. -/
def compacted (s : LogStore) : LogStore :=
  opened s.path s.options ⟨s.entries, s.entries.count, 0⟩ s.entries.log.length

/-- **How a compaction ends** when file operations may fail: the log is rewritten to one put for
    each live entry, and the store takes writes, or nothing but `unsynced` has changed. -/
inductive Compacted (s : LogStore) (d : Disk) : Except StoreError Unit × LogStore → Disk → Prop
  /-- The log is rewritten. -/
  | rewritten {d' : Disk} (hstep : s.compacted.InStep d' (Index.puts s.entries))
      (hlog : d'.log = some s.entries.log) : Compacted s d (.ok (), s.compacted) d'
  /-- The old log stays. -/
  | kept {d' : Disk} (unsynced : Bool) (hd : d.SameLog d') :
      Compacted s d (.error ioFailure, { s with unsynced }) d'

/-- **`compact` under failures** rewrites the log or leaves it, whatever state the store is in. -/
theorem compact_survives (hdir : d.directory = .present)
    (hfits : ∀ r ∈ Index.puts s.entries, r.Fits) : s.compact.Survives (Compacted s d) d := by
  simp only [compact, sync, Program.survives_bind, Program.survives_effect, Disk.attempt_syncLog,
    Disk.partway_syncLog, Bool.false_eq_true, if_true, if_false, Program.survives_pure]
  refine ⟨?_, fun _ => .kept s.unsynced (.refl d)⟩
  refine (writeImage_survives hfits d).mono ?_
  rintro result d' ⟨hlog, hresult⟩
  have hgivenUp : ∀ d'' : Disk, d.SameLog d'' →
      Compacted s d (.error ioFailure, { s with unsynced := false }) d'' :=
    fun d'' hd => .kept false hd
  have hremoved := hlog.trans d'.sameLog_removeTemp
  rcases hresult with ⟨rfl, htemp⟩ | rfl
  · simp only [Disk.attempt_renameTemp htemp, Program.survives_bind, Program.survives_effect,
      Bool.not_true, Bool.not_false, Bool.false_eq_true, if_false, if_true, Program.survives_pure]
    have hnew : s.compacted.InStep { d' with log := some s.entries.log, temp := .free }
        (Index.puts s.entries) :=
      inStep_opened _ _ (hlog.directory.trans hdir) rfl (holds_image hfits)
        (Index.ofRecords_puts s.entries).symm rfl
    -- Once the temporary file has taken the place of the log, a failed sync changes nothing.
    exact ⟨⟨.rewritten hnew rfl, fun _ => .rewritten hnew rfl⟩,
      fun _ => ⟨hgivenUp _ hremoved, fun _ => hgivenUp _ hlog⟩⟩
  · simp only [Program.survives_bind, Program.survives_effect, Program.survives_pure]
    exact ⟨hgivenUp _ hremoved, fun _ => hgivenUp _ hlog⟩

/-- **`flush` under failures:** the log is compacted if that is due, and else left alone. -/
theorem flush_survives (hdir : d.directory = .present)
    (hfits : ∀ r ∈ Index.puts s.entries, r.Fits) :
    s.flush.Survives
      (fun result d' =>
        if s.options.compactionDue s.index.records s.index.dead then Compacted s d result d'
        else (∃ unsynced, result.2 = { s with unsynced }) ∧ d' = d) d := by
  simp only [flush, sync, Program.survives_bind, Program.survives_effect, Disk.attempt_syncLog,
    Disk.partway_syncLog, Bool.false_eq_true, if_true, if_false, Program.survives_pure]
  by_cases hdue : s.options.compactionDue s.index.records s.index.dead = true
  · simp only [hdue, if_true]
    refine ⟨?_, fun _ => .kept s.unsynced (.refl d)⟩
    -- Compaction follows the sync, so it starts from a store without unsynced records.
    refine (compact_survives (s := { s with unsynced := false }) hdir hfits).mono ?_
    rintro result d' (⟨hstep, hlog⟩ | ⟨unsynced, hd⟩)
    · exact .rewritten hstep hlog
    · exact .kept unsynced hd
  · simp only [hdue]
    exact ⟨⟨⟨false, rfl⟩, rfl⟩, fun _ => ⟨⟨s.unsynced, rfl⟩, trivial⟩⟩

/-! ### Opening -/

/-- `recover` under failures leaves the records of the log, and gives them if it gives anything. -/
theorem recover_survives (path : String) (options : StoreOptions) {file tail : Bytes}
    (hdir : d.directory = .present) (hlog : d.log = some file) (hholds : Log.Holds file rs tail) :
    (recover path options file).Survives
      (fun result d' => d'.Keeps rs ∧ ∀ s warnings, result = .ok (s, warnings) → s.InStep d' rs)
      d := by
  have hkeeps : d.Keeps rs := ⟨hdir, file, tail, hlog, hholds⟩
  have hlength := hholds.length_eq
  rw [recover_eq path options hholds]
  have hopened : ∀ file', Log.Holds file' rs [] → ∀ warnings s warnings',
      (.ok (opened path options (.ofRecords rs) (Header.length + (Log.bytes rs).length), warnings)
        : Except StoreError (LogStore × List Warning)) = .ok (s, warnings')
      → s.InStep { d with log := some file' } rs := by
    intro file' hholds' warnings s warnings' heq
    have hlength' := hholds'.length_eq
    obtain ⟨rfl, -⟩ := Prod.mk.inj (Except.ok.inj heq)
    exact inStep_opened path options hdir rfl hholds' rfl (by simpa using hlength'.symm)
  by_cases hcut : Header.length + (Log.bytes rs).length < file.length
  · have hattempt : d.attempt
          (.cutLog ⟨Header.length, true⟩ (Header.length + (Log.bytes rs).length)) = _ :=
      Disk.attempt_cutLog hlog (Nat.le_of_lt hcut)
    simp only [hcut, if_true, Program.survives_bind, Program.survives_effect, hattempt,
      Disk.attempt_syncLog, Disk.attempt_seekLog, Disk.partway_cutLog, Disk.partway_syncLog,
      Disk.partway_seekLog, Bool.not_true, Bool.not_false, Bool.false_eq_true, if_false,
      Program.survives_pure]
    have hafter : Disk.Keeps
        { d with log := some (file.take (Header.length + (Log.bytes rs).length)) } rs :=
      ⟨hdir, _, [], rfl, hholds.take⟩
    exact ⟨⟨⟨⟨hafter, hopened _ hholds.take _⟩, fun _ => ⟨hafter, by simp⟩⟩,
      fun _ => ⟨hafter, by simp⟩⟩, fun _ => ⟨hkeeps, by simp⟩⟩
  · -- The log parses to its end and is not touched.
    have htail : tail = [] := List.length_eq_zero_iff.1 (by omega)
    subst htail
    have hsame : { d with log := some file } = d := by rw [← hlog]
    have hafter := hopened file hholds
    rw [hsame] at hafter
    simp only [hcut, if_false, if_true, Program.survives_bind, Program.survives_effect,
      Disk.attempt_seekLog, Disk.partway_seekLog, Bool.not_true, Bool.not_false,
      Bool.false_eq_true, Program.survives_pure]
    exact ⟨⟨hkeeps, hafter _⟩, fun _ => ⟨hkeeps, by simp⟩⟩

/-- `create` under failures leaves no log or some part of the header, and a log without records if
    it gives a store. -/
theorem create_survives (path : String) (options : StoreOptions) (hdir : d.directory = .present)
    (hlog : d.log = none) :
    (create path options).Survives
      (fun result d' => (d'.log = none
          ∨ d'.directory = .present ∧ ∃ part, part <+: Header.current.encode ∧ d'.log = some part)
        ∧ ∀ s, result = .ok s → s.InStep d' []) d := by
  have hcreate := Disk.attempt_createLog hlog
  have hempty : Disk.log { d with log := some [] } = some [] := rfl
  have hwrite := Disk.attempt_writeLog hempty Header.current.encode
  simp only [List.length_nil, List.nil_append] at hwrite
  have hpart : ∀ part : Bytes, part <+: Header.current.encode →
      Disk.log { d with log := some part } = none ∨ d.directory = .present
        ∧ ∃ part', part' <+: Header.current.encode
          ∧ Disk.log { d with log := some part } = some part' :=
    fun part hbegins => .inr ⟨hdir, part, hbegins, rfl⟩
  simp only [create, Program.survives_bind, Program.survives_effect, hcreate, Bool.not_true,
    Bool.not_false, Bool.false_eq_true, if_false, if_true, hwrite, Program.survives_pure]
  refine ⟨⟨?_, fun kept => ?_⟩, fun _ => ⟨.inl hlog, by simp⟩⟩
  · have hadmitted := Disk.admitted_prefix { d with log := some [] } 0 Header.current.encode
    by_cases hall : (Disk.admitted { d with log := some [] } 0 Header.current.encode).length
        = Header.current.encode.length
    · have hbytes := hadmitted.eq_of_length hall
      have hnew : ∀ s,
          (.ok (opened path options .empty Header.length) : Except StoreError LogStore) = .ok s
          → s.InStep { d with log := some Header.current.encode } [] := by
        intro s hs
        rw [← Except.ok.inj hs]
        exact inStep_opened path options hdir rfl Log.holds_header rfl rfl
      have hwhole := hpart _ List.prefix_rfl
      simp only [hbytes, decide_true, Bool.not_true, Bool.not_false, Bool.false_eq_true, if_false,
        if_true, Program.survives_bind, Program.survives_effect, Disk.attempt_syncLog,
        Disk.partway_syncLog, Program.survives_pure]
      exact ⟨⟨⟨hwhole, hnew⟩, fun _ => ⟨hwhole, hnew⟩⟩, fun _ => ⟨hwhole, by simp⟩⟩
    · simp only [hall, decide_false, Bool.not_false, if_true, Program.survives_pure]
      exact ⟨hpart _ hadmitted, by simp⟩
  · -- The write was made to fail, after some of the header.
    obtain ⟨part, hbegins, heq⟩ := Disk.partway_writeLog hempty Header.current.encode kept
    simp only [List.length_nil, List.nil_append] at heq
    rw [heq]
    exact ⟨hpart part hbegins, by simp⟩

/-- **`opening` under failures** gives a store `InStep` with its disk, if it gives one; its records
    are those of the log that was found. -/
theorem opening_survives (directory : String) (options : StoreOptions) (found : Disk) :
    (opening directory options found).Survives
      (fun result d' => ∀ s warnings, result = .ok (s, warnings) →
        ∃ rs, s.InStep d' rs ∧ ∀ rs', found.Keeps rs' → rs' = rs) found := by
  simp only [opening, Program.survives_bind, Program.survives_effect]
  refine ⟨?_, by simp⟩
  by_cases hmade : (found.attempt .makeDirectory).1 = true
  · have hdir := Disk.present_of_makeDirectory hmade
    generalize (found.attempt .makeDirectory).2 = d at hdir ⊢
    obtain ⟨hdir, hlog⟩ := hdir
    simp only [hmade, Bool.not_true, Bool.false_eq_true, if_false]
    cases hfound : found.log with
    | none =>
      rw [hfound] at hlog
      simp only [Program.survives_bind]
      refine (create_survives _ options hdir hlog).mono ?_
      rintro result d' ⟨-, hcreated⟩
      cases result with
      | error e => simp
      | ok s' =>
        simp only [Program.survives_pure, Except.ok.injEq, Prod.mk.injEq, and_imp]
        rintro s warnings rfl -
        refine ⟨[], hcreated s' rfl, ?_⟩
        rintro rs' ⟨-, file, tail, hfile, -⟩
        rw [hfound] at hfile
        simp at hfile
    | some file =>
      rw [hfound] at hlog
      by_cases hshort : file.length < Header.length
      · simp [recover, hshort]
      · by_cases hvalid : (Header.decode file).valid = true
        · obtain ⟨rs, tail, hholds⟩ := Log.holds_of_valid (Nat.le_of_not_lt hshort) hvalid
          refine (recover_survives _ options hdir hlog hholds).mono ?_
          rintro result d' ⟨-, hrecovered⟩ s warnings heq
          refine ⟨rs, hrecovered s warnings heq, ?_⟩
          rintro rs' ⟨-, file', tail', hfile, hholds'⟩
          rw [hfound] at hfile
          obtain rfl := Option.some.inj hfile
          exact hholds'.records_eq hholds
        · -- Something else than a log is refused and stays as it is.
          simp [recover, hshort, hvalid]
  · simp [hmade]

end LogStore

end BatchJournal
