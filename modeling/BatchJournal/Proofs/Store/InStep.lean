import BatchJournal.Proofs.Log.Indexing
import BatchJournal.Proofs.Log.Parsing
import BatchJournal.Proofs.Store.Effects
import BatchJournal.Store.Basic

namespace BatchJournal

/-!
# Stores in step with their disk

An open store knows of its log what the log itself says: `LogStore.InStep s d rs` ties the index,
the size and the handle of a store to a log of the records `rs` on its disk.  Between two effects
the disk keeps at least a log of certain records, perhaps with a part of one more behind them
(`Disk.Keeps`).

* `LogStore.append_ensures`, `LogStore.compact_ensures` — what appending and compacting do to the
  records, at their end and wherever their process may die.
* `LogStore.program_ensures` — what every operation does to the entries, at its end and wherever its
  process may die.
-/

/-- A directory with a log of the records `rs`, perhaps with more bytes that are no record. -/
def Disk.Keeps (d : Disk) (rs : List Record) : Prop :=
  d.directory = .present ∧ ∃ file tail, d.log = some file ∧ Log.Holds file rs tail

/-- A log with a part of a record behind it still `Keeps` its records, unless the part is the
    whole. -/
theorem Disk.keeps_append_part {d : Disk} {file : Bytes} {rs : List Record}
    (hdir : d.directory = .present) (hholds : Log.Holds file rs []) {r : Record} (hr : r.Fits)
    {part : Bytes} (hbegins : part <+: r.bytes) :
    Keeps { d with log := some (file ++ part) } rs
      ∨ Keeps { d with log := some (file ++ part) } (rs ++ [r]) := by
  by_cases hwhole : part = r.bytes
  · subst hwhole
    exact .inr ⟨hdir, _, [], rfl, hholds.append hr⟩
  · exact .inl ⟨hdir, _, part, rfl, hholds.torn hr hbegins hwhole⟩

/-- A directory with a log that amounts to the entries `es`. -/
def Disk.KeepsEntries (d : Disk) (es : Entries) : Prop :=
  ∃ rs, d.Keeps rs ∧ (Index.ofRecords rs).entries = es

theorem Disk.SameLog.keeps {d d' : Disk} {rs : List Record} (h : d.SameLog d') (hd : d.Keeps rs) :
    d'.Keeps rs := by
  obtain ⟨hdir, file, tail, hlog, hholds⟩ := hd
  exact ⟨h.directory.trans hdir, file, tail, h.log.trans hlog, hholds⟩

/-- **Every live entry of a log** `Fits` into a record, since it was put there. -/
theorem Log.Holds.fits_puts {file tail : Bytes} {rs : List Record} {ix : Index}
    (h : Holds file rs tail) (hix : ix = .ofRecords rs) : ∀ r ∈ Index.puts ix.entries, r.Fits := by
  intro r hr
  obtain ⟨e, he, rfl⟩ := List.mem_map.1 hr
  have hget := Entries.mem_toList_iff.1 he
  rw [hix] at hget
  exact h.fits _ (Index.put_mem_of_get? hget)

namespace LogStore

/-- **A store in step with its disk:** the log holds exactly `rs`, the store has their index, and it
    writes at the end of the log. -/
structure InStep (s : LogStore) (d : Disk) (rs : List Record) : Prop where
  /-- The directory is there. -/
  directory : d.directory = .present
  /-- The log holds the records and nothing else, and `size` is its length. -/
  log : ∃ file, d.log = some file ∧ Log.Holds file rs [] ∧ s.size = file.length
  /-- The index is that of the records. -/
  index : s.index = .ofRecords rs
  /-- The next write goes to the end of the log. -/
  handle : s.handle = ⟨s.size, true⟩
  /-- The store takes writes. -/
  working : s.broken = false

variable {s : LogStore} {d : Disk} {rs : List Record}

namespace InStep

theorem keeps (h : s.InStep d rs) : d.Keeps rs := by
  obtain ⟨file, hlog, hholds, -⟩ := h.log
  exact ⟨h.directory, file, [], hlog, hholds⟩

theorem entries_eq (h : s.InStep d rs) : s.entries = (Index.ofRecords rs).entries := by
  rw [entries, h.index]

theorem keepsEntries (h : s.InStep d rs) : d.KeepsEntries s.entries :=
  ⟨rs, h.keeps, h.entries_eq.symm⟩

/-- Every entry of the store `Fits` into a record. -/
theorem fits (h : s.InStep d rs) : ∀ r ∈ Index.puts s.entries, r.Fits := by
  obtain ⟨file, -, hholds, -⟩ := h.log
  exact hholds.fits_puts h.index

end InStep

/-- A store that is `opened` on a log, with its index and its size, is `InStep`. -/
theorem inStep_opened (path : String) (options : StoreOptions) {ix : Index} {size : Nat}
    {file : Bytes} (hdir : d.directory = .present) (hlog : d.log = some file)
    (hholds : Log.Holds file rs []) (hix : ix = .ofRecords rs) (hsize : size = file.length) :
    (opened path options ix size).InStep d rs :=
  { directory := hdir
    log := ⟨file, hlog, hholds, hsize⟩
    index := hix
    handle := rfl
    working := rfl }

/-! ### Appending -/

/-- After a part of a record was written, `rollback` restores log and store. -/
theorem rollback_ensures {file part : Bytes} (h : s.InStep d rs)
    (hholds : Log.Holds file rs []) (hsize : s.size = file.length) {crash : Disk → Prop}
    (hcrash : ∀ d', d'.Keeps rs → crash d')
    (hpart : crash { d with log := some (file ++ part) }) :
    s.rollback.Ensures crash (fun s' d' => s'.InStep d' rs)
      { d with log := some (file ++ part) } := by
  -- Cutting at `size` takes away exactly what the failed write left behind.
  have hcut : Disk.attempt { d with log := some (file ++ part) } (.cutLog s.handle s.size)
      = (true, { d with log := some file }) := by
    rw [h.handle, Disk.attempt_cutLog rfl (by simp [hsize]), hsize, List.take_left]
  have hrestored : Disk.Keeps { d with log := some file } rs := ⟨h.directory, file, [], rfl, hholds⟩
  simp only [rollback, Program.ensures_bind, Program.ensures_effect, hcut, Bool.not_true,
    Bool.false_eq_true, if_false]
  -- A crash finds the part still there, or the file cut back.
  refine ⟨fun _ => hpart, hcrash _ hrestored, fun _ => hcrash _ hrestored, hcrash _ hrestored,
    hcrash _ hrestored, ?_⟩
  exact
    { directory := h.directory
      log := ⟨file, rfl, hholds, hsize⟩
      index := h.index
      handle := by simp [h.handle]
      working := h.working }

/-- **`append`** adds the record and acknowledges it, or does neither.  A process that dies on the
    way leaves the records as they were or with the one more. -/
theorem append_ensures (h : s.InStep d rs) (r : Record) :
    (s.append r).Ensures
      (fun d' => d'.Keeps rs ∨ d'.Keeps (rs ++ [r]))
      (fun result d' =>
        result.1 = .ok () ∧ result.2.InStep d' (rs ++ [r])
          ∨ (∃ e, result.1 = .error e) ∧ result.2.InStep d' rs) d := by
  obtain ⟨file, hlog, hholds, hsize⟩ := h.log
  unfold append
  rw [if_neg (by simp [h.working])]
  by_cases hfits : r.Fits
  · have hhandle : s.handle = ⟨file.length, true⟩ := by rw [h.handle, hsize]
    have hpart : ∀ part, part <+: r.bytes →
        Disk.Keeps { d with log := some (file ++ part) } rs
          ∨ Disk.Keeps { d with log := some (file ++ part) } (rs ++ [r]) :=
      fun part => Disk.keeps_append_part h.directory hholds hfits
    have hpartway : ∀ kept, (d.partway kept (.writeLog s.handle r.bytes)).Keeps rs
        ∨ (d.partway kept (.writeLog s.handle r.bytes)).Keeps (rs ++ [r]) := by
      intro kept
      obtain ⟨part, hbegins, heq⟩ := Disk.partway_writeLog hlog r.bytes kept
      rw [hhandle, heq]
      exact hpart part hbegins
    have hadmitted := d.admitted_prefix file.length r.bytes
    have hwritten := Disk.attempt_writeLog hlog r.bytes
    rw [← hhandle] at hwritten
    simp only [Record.encode_of_fits hfits, Program.ensures_bind, Program.ensures_effect]
    refine ⟨hpartway, by rw [hwritten]; exact hpart _ hadmitted, ?_⟩
    by_cases hall : (d.admitted file.length r.bytes).length = r.bytes.length
    · -- Everything was written: the record is in the log, synced or not.
      have hbytes : d.admitted file.length r.bytes = r.bytes := hadmitted.eq_of_length hall
      rw [hbytes] at hwritten
      have hafter : Log.Holds (file ++ r.bytes) (rs ++ [r]) [] := hholds.append hfits
      have hkeeps : Disk.Keeps { d with log := some (file ++ r.bytes) } (rs ++ [r]) :=
        ⟨h.directory, _, [], rfl, hafter⟩
      have hinStep : ∀ unsynced : Bool,
          InStep
            ({ s with
                unsynced
                handle := { s.handle with position := s.handle.position + r.bytes.length }
              }.appended r r.bytes.length)
            { d with log := some (file ++ r.bytes) } (rs ++ [r]) := by
        intro unsynced
        exact
          { directory := h.directory
            log := ⟨_, rfl, hafter, by simp [appended, hsize]⟩
            index := by rw [appended, h.index, Index.ofRecords_append]
            handle := by simp [appended, h.handle]
            working := h.working }
      simp only [hwritten, decide_true, Bool.not_true, Bool.false_eq_true, if_false]
      split
      · simp only [Program.ensures_bind, Program.ensures_effect, Disk.attempt, Disk.partway,
          Bool.not_true, Bool.false_eq_true, if_false, Program.ensures_pure]
        exact ⟨fun _ => .inr hkeeps, .inr hkeeps, .inr hkeeps, .inl ⟨trivial, hinStep false⟩⟩
      · exact ⟨.inr hkeeps, .inl ⟨rfl, hinStep true⟩⟩
    · -- A part was written, and is cut off again.
      simp only [hwritten, hall, decide_false, Bool.not_false, if_true, Program.ensures_bind,
        Program.ensures_pure]
      refine (rollback_ensures h hholds hsize (fun _ hd => .inl hd)
        (hpart _ hadmitted)).mono (fun _ hd => hd) ?_
      intro s' d' hs'
      exact ⟨.inl hs'.keeps, .inr ⟨⟨_, rfl⟩, hs'⟩⟩
  · simp only [Record.encode_eq, if_neg hfits, Program.ensures_pure]
    exact ⟨.inl h.keeps, .inr ⟨⟨_, rfl⟩, h⟩⟩

/-! ### Compacting -/

/-- `image` gives a log of one put for each entry, if they all fit. -/
theorem image_eq {es : Entries} (h : ∀ r ∈ Index.puts es, r.Fits) :
    image es = .ok (Header.current.encode ++ Log.bytes (Index.puts es)) := by
  -- Each record of the list is encoded, so the whole list is.
  have hmap : ∀ l : List Entry, (∀ e ∈ l, (Record.put e).Fits) →
      (l.mapM fun e => (Record.put e).encode) = .ok (l.map fun e => (Record.put e).bytes) := by
    intro l hl
    induction l with
    | nil => rfl
    | cons e l ih =>
      have he : (Record.put e).Fits := hl e List.mem_cons_self
      have hrest := ih fun e' he' => hl e' (List.mem_cons_of_mem _ he')
      simp [List.mapM_cons, Record.encode_of_fits he, hrest, bind, Except.bind, pure, Except.pure]
  have hfits : ∀ e ∈ es.toList, (Record.put e).Fits := fun e he => h _ (List.mem_map_of_mem he)
  simp [image, hmap _ hfits, Index.puts, Log.bytes, List.flatMap_def, bind, Except.bind, pure,
    Except.pure, Function.comp_def]

/-- The bytes of an `image` are a log file: it `Holds` the puts. -/
theorem holds_image {es : Entries} (h : ∀ r ∈ Index.puts es, r.Fits) :
    Log.Holds (Header.current.encode ++ Log.bytes (Index.puts es)) (Index.puts es) [] :=
  ⟨_, Header.opens_current, by simp, h, rfl⟩

/-- `writeImage` leaves the log alone; when it succeeds the temporary file has the `image`. -/
theorem writeImage_ensures {es : Entries} (h : ∀ r ∈ Index.puts es, r.Fits) (d : Disk) :
    (writeImage es).Ensures d.SameLog
      (fun result d' => d.SameLog d' ∧ ∀ size, result = .ok size →
        ∃ bytes, image es = .ok bytes ∧ d'.temp = .file bytes ∧ size = bytes.length) d := by
  have hcreated := d.sameLog_createTemp
  simp only [writeImage, Program.ensures_bind, Program.ensures_effect]
  -- A crash at any point leaves the log alone: only the temporary file is written.
  refine ⟨fun _ => Disk.SameLog.refl d, hcreated, ?_⟩
  by_cases hcreate : (d.attempt .createTemp).1 = true
  · have htemp := Disk.temp_createTemp hcreate
    generalize (d.attempt .createTemp).2 = d₁ at htemp hcreated
    simp only [hcreate, image_eq h, Bool.not_true, Bool.false_eq_true, if_false,
      Program.ensures_bind, Program.ensures_effect]
    -- The image is fixed before the disk is asked to take it.
    generalize hbytes : Header.current.encode ++ Log.bytes (Index.puts es) = bytes
    have hwritten := hcreated.trans (d₁.sameLog_writeTemp bytes)
    refine ⟨fun kept => hcreated.trans (d₁.sameLog_writeTemp (bytes.take kept)), hwritten, ?_⟩
    by_cases hwrite : (d₁.attempt (.writeTemp bytes)).1 = true
    · have htemp₂ := Disk.temp_writeTemp htemp hwrite
      simp only [hwrite, Bool.not_true, Bool.false_eq_true, if_false, Program.ensures_bind,
        Program.ensures_effect]
      refine ⟨fun _ => hwritten, hwritten, hwritten, hwritten, ?_⟩
      intro size hsize
      exact ⟨bytes, rfl, htemp₂, (Except.ok.inj hsize).symm⟩
    · simp only [hwrite, Bool.not_false, if_true, Program.ensures_pure]
      exact ⟨hwritten, hwritten, by simp⟩
  · simp only [hcreate, Bool.not_false, if_true, Program.ensures_pure]
    exact ⟨hcreated, hcreated, by simp⟩

/-- `InStep` is kept while only the temporary file changes. -/
theorem InStep.sameLog {d' : Disk} (h : s.InStep d rs) (hd : d.SameLog d') : s.InStep d' rs := by
  obtain ⟨file, hlog, hholds⟩ := h.log
  exact ⟨hd.directory.trans h.directory, ⟨file, hd.log.trans hlog, hholds⟩, h.index, h.handle,
    h.working⟩

/-- `InStep` does not depend on `unsynced`. -/
theorem InStep.synced (h : s.InStep d rs) (unsynced : Bool) :
    InStep { s with unsynced } d rs :=
  ⟨h.directory, h.log, h.index, h.handle, h.working⟩

/-- **`compact`** rewrites the log to one put for each live entry, or leaves it.  A process that
    dies on the way leaves one of the two. -/
theorem compact_ensures (h : s.InStep d rs) :
    s.compact.Ensures
      (fun d' => d'.Keeps rs ∨ d'.Keeps (Index.puts s.entries))
      (fun result d' =>
        result.1 = .ok () ∧ result.2.InStep d' (Index.puts s.entries)
          ∨ (∃ e, result.1 = .error e) ∧ result.2.InStep d' rs) d := by
  have hsynced := h.synced false
  have hkeeps : ∀ d', d.SameLog d' → d'.Keeps rs := fun d' hd => hd.keeps h.keeps
  have hfits : ∀ r ∈ Index.puts s.entries, r.Fits := h.fits
  simp only [compact, sync, Program.ensures_bind, Program.ensures_effect, Disk.attempt_syncLog,
    if_true, Program.ensures_pure]
  refine ⟨fun _ => .inl h.keeps, .inl h.keeps, .inl h.keeps, ?_⟩
  refine (writeImage_ensures hfits d).mono (fun d' hd => .inl (hkeeps d' hd)) ?_
  rintro result d' ⟨hlog, hresult⟩
  have hold := hkeeps d' hlog
  cases result with
  | error e =>
    -- The temporary file is removed, if it is there at all.
    have hremoved := hlog.trans d'.sameLog_removeTemp
    simp only [Program.ensures_bind, Program.ensures_effect, Program.ensures_pure]
    exact ⟨fun _ => .inl hold, .inl (hkeeps _ hremoved), .inl (hkeeps _ hremoved),
      .inr ⟨⟨e, rfl⟩, hsynced.sameLog hremoved⟩⟩
  | ok size =>
    obtain ⟨bytes, himage, htemp, rfl⟩ := hresult size rfl
    rw [image_eq hfits] at himage
    obtain rfl := Except.ok.inj himage
    have hnew : Disk.Keeps
        { d' with log := some (Header.current.encode ++ Log.bytes (Index.puts s.entries)),
                  temp := .free } (Index.puts s.entries) :=
      ⟨hold.1, _, [], rfl, holds_image hfits⟩
    simp only [Disk.attempt_renameTemp htemp, Program.ensures_bind, Program.ensures_effect,
      Bool.not_true, Bool.false_eq_true, if_false]
    refine ⟨fun _ => .inl hold, .inr hnew, fun _ => .inr hnew, .inr hnew, .inr hnew,
      .inl ⟨rfl, ?_⟩⟩
    exact inStep_opened _ _ hold.1 rfl (holds_image hfits) (Index.ofRecords_puts s.entries).symm rfl

/-! ### Every operation -/

/-- What an operation leaves: the store `InStep` with its disk, with its `effect` on `before` if it
    was acknowledged and without it if not. -/
def Settled (before : Entries) (op : StoreOp) (result : Except StoreError Unit × LogStore)
    (d : Disk) : Prop :=
  (∃ rs, result.2.InStep d rs)
    ∧ (result.1 = .ok () ∧ result.2.entries = op.effect before
      ∨ (∃ e, result.1 = .error e) ∧ result.2.entries = before)

/-- `append` of a record that has the effect of `op` leaves what is `Settled` for `op`. -/
theorem append_settles (h : s.InStep d rs) {r : Record} {op : StoreOp}
    (heffect : ∀ ix : Index, (ix.add r).entries = op.effect ix.entries) :
    (s.append r).Ensures
      (fun d' => d'.KeepsEntries s.entries ∨ d'.KeepsEntries (op.effect s.entries))
      (Settled s.entries op) d := by
  -- The record's effect on the index is that of the operation.
  have hmore : (Index.ofRecords (rs ++ [r])).entries = op.effect s.entries := by
    rw [Index.ofRecords_append, heffect, h.entries_eq]
  refine (append_ensures h r).mono ?_ ?_
  · rintro d' (hd | hd)
    · exact .inl ⟨rs, hd, h.entries_eq.symm⟩
    · exact .inr ⟨_, hd, hmore⟩
  · rintro result d' (⟨hok, hs⟩ | ⟨herror, hs⟩)
    · exact ⟨⟨_, hs⟩, .inl ⟨hok, hs.entries_eq.trans hmore⟩⟩
    · exact ⟨⟨_, hs⟩, .inr ⟨herror, hs.entries_eq.trans h.entries_eq.symm⟩⟩

/-- `compact`, as an operation or within a flush, keeps the entries. -/
theorem compact_settles (h : s.InStep d rs) {op : StoreOp}
    (heffect : ∀ es, op.effect es = es) :
    s.compact.Ensures (fun d' => d'.KeepsEntries s.entries) (Settled s.entries op) d := by
  have hputs := Index.entries_ofRecords_puts s.entries
  refine (compact_ensures h).mono ?_ ?_
  · rintro d' (hd | hd)
    · exact ⟨rs, hd, h.entries_eq.symm⟩
    · exact ⟨_, hd, hputs⟩
  · rintro result d' (⟨hok, hs⟩ | ⟨herror, hs⟩)
    · exact ⟨⟨_, hs⟩, .inl ⟨hok, by rw [heffect, hs.entries_eq, hputs]⟩⟩
    · exact ⟨⟨_, hs⟩, .inr ⟨herror, hs.entries_eq.trans h.entries_eq.symm⟩⟩

/-- `flush` keeps the entries, whether or not the log is compacted on the occasion. -/
theorem flush_settles (h : s.InStep d rs) :
    s.flush.Ensures (fun d' => d'.KeepsEntries s.entries) (Settled s.entries .flush) d := by
  have hsynced := h.synced false
  simp only [flush, sync, Program.ensures_bind, Program.ensures_effect, Disk.attempt_syncLog,
    if_true, Program.ensures_pure]
  refine ⟨fun _ => h.keepsEntries, h.keepsEntries, h.keepsEntries, ?_⟩
  split
  · exact compact_settles hsynced fun _ => rfl
  · exact ⟨h.keepsEntries, ⟨rs, hsynced⟩, .inl ⟨rfl, rfl⟩⟩

/-- **Every operation** takes effect and is acknowledged, or does neither.  A process that dies in
    it leaves the entries without its `effect` or with it. -/
theorem program_ensures (h : s.InStep d rs) (op : StoreOp) :
    (s.program op).Ensures
      (fun d' => d'.KeepsEntries s.entries ∨ d'.KeepsEntries (op.effect s.entries))
      (Settled s.entries op) d := by
  cases op with
  | put e => exact append_settles h fun ix => Index.entries_add_put ix e
  | delete id =>
    show (s.delete id).Ensures _ _ d
    unfold delete
    by_cases hid : s.entries.contains id = true
    · rw [if_pos hid]
      exact append_settles h fun ix => Index.entries_add_delete ix id
    · rw [if_neg hid]
      -- Deleting what is not there is the effect of the operation as well.
      have hsame := Entries.delete_of_not_contains (Bool.eq_false_iff.2 hid)
      exact ⟨.inl h.keepsEntries, ⟨rs, h⟩, .inl ⟨rfl, hsame.symm⟩⟩
  | flush => exact (flush_settles h).mono (fun _ hd => .inl hd) fun _ _ hs => hs
  | compact => exact (compact_settles h fun _ => rfl).mono (fun _ hd => .inl hd) fun _ _ hs => hs

end LogStore

end BatchJournal
