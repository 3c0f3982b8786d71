import BatchJournal.Proofs.Store.InStep

namespace BatchJournal

/-!
# Opening a store

Opening reads the log of a directory, cuts off what stands behind its records, and gives a store in
step with the disk.  It can be broken off anywhere, and the next opening finds the same records.

* `LogStore.opening_ensures` — a directory with a log opens, with the index of its records.
* `LogStore.inStep_of_opening` — whatever opens is in step, on a log that was found or on a new one.
* `Medium.recovers_of_keepsEntries` — the entries of a store opened on such a directory.
-/

namespace LogStore

variable {d : Disk} {rs : List Record}

/-! ### Recovery -/

/-- **`recover`** of a log that `Holds` records: it is cut at their end if anything stands
    behind. -/
theorem recover_eq (path : String) (options : StoreOptions) {file tail : Bytes}
    (hholds : Log.Holds file rs tail) :
    recover path options file = (do
      if Header.length + (Log.bytes rs).length < file.length then
        if !(← Program.effect (.cutLog ⟨Header.length, true⟩
            (Header.length + (Log.bytes rs).length))) then return .error ioFailure
        if !(← Program.effect .syncLog) then return .error ioFailure
      if !(← Program.effect (.seekLog (Header.length + (Log.bytes rs).length))) then
        return .error ioFailure
      return .ok
        (opened path options (.ofRecords rs) (Header.length + (Log.bytes rs).length),
          ((Log.parse tail).stop.map (warning · (Log.bytes rs).length)).toList)) := by
  have hlength := hholds.length_eq
  unfold recover
  rw [if_neg (by omega)]
  simp only [hholds.decode_valid, Bool.not_true, Bool.false_eq_true, if_false, hholds.parse_eq,
    Log.length_parsed, Log.map_fst_parsed]

/-- **`recover`** reads the records of a log and cuts off what stands behind them. -/
theorem recover_ensures (path : String) (options : StoreOptions) {file tail : Bytes}
    (hdir : d.directory = .present) (hlog : d.log = some file) (hholds : Log.Holds file rs tail) :
    (recover path options file).Ensures (fun d' => d'.Keeps rs)
      (fun result d' => ∃ s warnings, result = .ok (s, warnings) ∧ s.InStep d' rs) d := by
  have hkeeps : d.Keeps rs := ⟨hdir, file, tail, hlog, hholds⟩
  have hlength := hholds.length_eq
  rw [recover_eq path options hholds]
  -- The log as it is when nothing stands behind the records any more.
  have hopened : ∀ file', Log.Holds file' rs [] →
      (opened path options (.ofRecords rs) (Header.length + (Log.bytes rs).length)).InStep
        { d with log := some file' } rs := by
    intro file' hholds'
    have hlength' := hholds'.length_eq
    exact inStep_opened path options hdir rfl hholds' rfl (by simpa using hlength'.symm)
  by_cases hcut : Header.length + (Log.bytes rs).length < file.length
  · have hattempt : d.attempt
          (.cutLog ⟨Header.length, true⟩ (Header.length + (Log.bytes rs).length)) = _ :=
      Disk.attempt_cutLog hlog (Nat.le_of_lt hcut)
    have hafter := hopened _ hholds.take
    simp only [hcut, if_true, Program.ensures_bind, Program.ensures_effect, hattempt,
      Disk.attempt_syncLog, Disk.attempt_seekLog, Bool.not_true, Bool.false_eq_true, if_false]
    exact ⟨fun _ => hkeeps, hafter.keeps, fun _ => hafter.keeps, hafter.keeps,
      fun _ => hafter.keeps, hafter.keeps, hafter.keeps, _, _, rfl, hafter⟩
  · have htail : tail = [] := List.length_eq_zero_iff.1 (by omega)
    subst htail
    have hsame : { d with log := some file } = d := by rw [← hlog]
    have hafter := hopened file hholds
    rw [hsame] at hafter
    simp only [hcut, if_false, Program.ensures_bind, Program.ensures_effect,
      Disk.attempt_seekLog, Bool.not_true, Bool.false_eq_true]
    exact ⟨fun _ => hkeeps, hkeeps, hkeeps, _, _, rfl, hafter⟩

/-- **`opening`** a directory that `Keeps` records gives a store with these. -/
theorem opening_ensures (directory : String) (options : StoreOptions) (h : d.Keeps rs) :
    (opening directory options d).Ensures (fun d' => d'.Keeps rs)
      (fun result d' => ∃ s warnings, result = .ok (s, warnings) ∧ s.InStep d' rs) d := by
  obtain ⟨hdir, file, tail, hlog, hholds⟩ := h
  have hmade := Disk.attempt_makeDirectory hdir
  have hrecovered := recover_ensures (directory ++ "/" ++ fileName) options hdir hlog hholds
  simp only [opening, Program.ensures_bind, Program.ensures_effect, hmade, Bool.not_true,
    Bool.false_eq_true, if_false, hlog]
  exact ⟨fun _ => hrecovered.start, hrecovered.start, hrecovered⟩

/-! ### New logs and logs of others -/

/-- A log that `create` makes has no records. -/
theorem inStep_of_create {path : String} {options : StoreOptions} {s : LogStore}
    (hdir : d.directory = .present) (hlog : d.log = none)
    (h : ((create path options).run d).1 = .ok s) :
    s.InStep ((create path options).run d).2 [] := by
  have hcreate := Disk.attempt_createLog hlog
  have hwrite := @Disk.attempt_writeLog { d with log := some [] } [] rfl Header.current.encode
  simp only [List.length_nil, List.nil_append] at hwrite
  simp only [create, Program.run_bind, Program.run_effect, hcreate, Bool.not_true,
    Bool.false_eq_true, if_false, hwrite] at h ⊢
  -- The header is written whole or the creation fails, so a store means a whole header.
  by_cases hall : (Disk.admitted { d with log := some [] } 0 Header.current.encode).length
      = Header.current.encode.length
  · have hbytes := (Disk.admitted_prefix _ _ _).eq_of_length hall
    simp only [hbytes, decide_true, Bool.not_true, Bool.false_eq_true, if_false,
      Program.run_bind, Program.run_effect, Disk.attempt_syncLog, Program.run_pure] at h ⊢
    rw [← Except.ok.inj h]
    exact inStep_opened path options hdir rfl Log.holds_header rfl rfl
  · simp [hall] at h

/-- **Whatever opens is `InStep`** with its disk. -/
theorem inStep_of_opening {directory : String} {options : StoreOptions} {found : Disk}
    {s : LogStore} {warnings : List Warning}
    (h : (openOn directory options found).1 = .ok (s, warnings)) :
    ∃ rs, s.InStep (openOn directory options found).2 rs ∧ (found.log = none → rs = []) := by
  simp only [openOn, opening, Program.run_bind, Program.run_effect] at h ⊢
  by_cases hmade : (found.attempt .makeDirectory).1 = true
  · have hdir := Disk.present_of_makeDirectory hmade
    generalize (found.attempt .makeDirectory).2 = d at h hdir ⊢
    obtain ⟨hdir, hlog⟩ := hdir
    simp only [hmade, Bool.not_true, Bool.false_eq_true, if_false] at h ⊢
    -- A log is created or recovered; a failure on either way contradicts the store we have.
    cases hfound : found.log with
    | none =>
      rw [hfound] at hlog
      simp only [hfound, Program.run_bind] at h ⊢
      cases hcreate : ((create (directory ++ "/" ++ fileName) options).run d).1 with
      | error e => simp [hcreate] at h
      | ok s' =>
        simp only [hcreate, Program.run_pure, Except.ok.injEq, Prod.mk.injEq] at h ⊢
        rw [← h.1]
        exact ⟨[], inStep_of_create hdir hlog hcreate, fun _ => rfl⟩
    | some file =>
      rw [hfound] at hlog
      simp only [hfound] at h ⊢
      by_cases hshort : file.length < Header.length
      · simp [recover, hshort] at h
      · by_cases hvalid : (Header.decode file).valid = true
        · -- A header that is long enough and valid is followed by records and a tail.
          obtain ⟨rs, tail, hholds⟩ := Log.holds_of_valid (Nat.le_of_not_lt hshort) hvalid
          obtain ⟨s', warnings', heq, hstep⟩ :=
            (recover_ensures (directory ++ "/" ++ fileName) options hdir hlog hholds).run
          rw [h] at heq
          obtain ⟨rfl, -⟩ := Prod.mk.inj (Except.ok.inj heq)
          exact ⟨rs, hstep, by simp⟩
        · simp [recover, hshort, hvalid] at h
  · simp [hmade] at h

end LogStore

/-! ### Media -/

/-- **A medium recovers** `es` if a store can be opened on it, whatever its options, and has
    them. -/
def Medium.Recovers (m : Medium) (es : Entries) : Prop :=
  ∀ directory options, ∃ s warnings m',
    m.openWith directory options = (.ok (s, warnings), m') ∧ s.entries = es

/-- A store whose log, if it has one, is `InStep` with its disk. -/
def Store.Sound : Store → Prop
  | .memory _ => True
  | .logged l d => ∃ rs, l.InStep d rs

/-- A disk that `KeepsEntries` opens, and gives a `Sound` store with these. -/
theorem Medium.openWith_of_keepsEntries {d : Disk} {es : Entries} (h : d.KeepsEntries es)
    (directory : String) (options : StoreOptions) :
    ∃ s warnings m', (Medium.disk d).openWith directory options = (.ok (s, warnings), m')
      ∧ s.Sound ∧ s.entries = es := by
  obtain ⟨rs, hkeeps, rfl⟩ := h
  obtain ⟨l, warnings, heq, hstep⟩ := (LogStore.opening_ensures directory options hkeeps).run
  have hrun : LogStore.openOn directory options d
      = (.ok (l, warnings), ((LogStore.opening directory options d).run d).2) := by
    rw [← heq]
    rfl
  -- The disk after the run is the only one spoken of below.
  generalize ((LogStore.opening directory options d).run d).2 = d' at hrun hstep
  refine ⟨.logged l d', warnings, .disk d', ?_, ⟨rs, hstep⟩, hstep.entries_eq⟩
  rw [openWith, hrun]

theorem Medium.recovers_of_keepsEntries {d : Disk} {es : Entries} (h : d.KeepsEntries es) :
    (Medium.disk d).Recovers es := by
  intro directory options
  obtain ⟨s, warnings, m', heq, -, hentries⟩ := openWith_of_keepsEntries h directory options
  exact ⟨s, warnings, m', heq, hentries⟩

/-- A store that was opened is `Sound`. -/
theorem Store.sound_of_openWith {m m' : Medium} {directory : String} {options : StoreOptions}
    {s : Store} {warnings : List Warning}
    (h : m.openWith directory options = (.ok (s, warnings), m')) : s.Sound := by
  cases m with
  | memory es =>
    obtain ⟨hs, -⟩ := Prod.mk.inj h
    obtain ⟨rfl, -⟩ := Prod.mk.inj (Except.ok.inj hs)
    trivial
  | disk d =>
    simp only [Medium.openWith] at h
    split at h
    · rename_i l warnings' d' hopen
      obtain ⟨hs, -⟩ := Prod.mk.inj h
      obtain ⟨rfl, rfl⟩ := Prod.mk.inj (Except.ok.inj hs)
      -- A store on disk came from an opening, which leaves it in step.
      obtain ⟨rs, hstep, -⟩ := LogStore.inStep_of_opening (congrArg Prod.fst hopen)
      rw [hopen] at hstep
      exact ⟨rs, hstep⟩
    · simp at h

end BatchJournal
