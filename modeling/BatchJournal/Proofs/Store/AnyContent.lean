import BatchJournal.Proofs.Log.Sequences
import BatchJournal.Proofs.Store.MapRefinement

namespace BatchJournal

/-!
# Opening whatever a log contains

A log with a valid header opens whatever its bytes are: the store has the longest sequence of
records that stands behind the header, and the log is cut where that sequence ends.  What is
appended then goes on where the cut was made, so the next opening finds those records and the new
ones, and has nothing to cut.

* `LogStore.OpensOn` — what opening a log gives and what it does to the disk.
* `LogStore.opensOn_of_longest` — opening a log gives the longest sequence of its records.
* `LogStore.operations_append` — puts and deletes add their records to a log, one after another.
* `LogStore.opens_any_content` — opening, opening again, appending in between, and cutting.
-/

/-! ### Records and operations -/

/-- The operation that adds the record to a log. -/
def Record.operation : Record → StoreOp
  | .put e => .put e
  | .delete id => .delete id

/-- What the operation of a record adds to the log of a store with the entries `es`: a delete of
    what is not there adds nothing. -/
def Record.added (es : Entries) : Record → List Record
  | .put e => [.put e]
  | .delete id => if es.contains id then [.delete id] else []

/-- **What acknowledged operations add** to the log of a store that has the entries `es` before
    them. -/
def Entries.written : Entries → List Record → List StoreAnswer → List Record
  | es, r :: rs, .done (.ok ()) :: answers =>
    r.added es ++ (r.operation.effect es).written rs answers
  | es, _ :: rs, _ :: answers => es.written rs answers
  | _, _, _ => []

namespace Index

/-- One more record has the `effect` of its operation on the entries. -/
theorem entries_add (ix : Index) (r : Record) :
    (ix.add r).entries = r.operation.effect ix.entries := by
  cases r <;> rfl

/-- **The entries of a log** are the effects of its records, folded from the first to the last by
    `StoreOp.effect`. -/
theorem entries_ofRecords (rs : List Record) :
    (ofRecords rs).entries = rs.foldl (fun es r => r.operation.effect es) .empty := by
  induction rs using List.reverseRecOn with
  | nil => rfl
  | append_singleton rs r ih =>
    rw [ofRecords_append, entries_add, ih, List.foldl_append]
    rfl

/-- What an operation adds, `r.added`, has its `effect` on the entries. -/
theorem entries_added (rs : List Record) (r : Record) :
    (ofRecords (rs ++ r.added (ofRecords rs).entries)).entries
      = r.operation.effect (ofRecords rs).entries := by
  cases r with
  | put e => exact (congrArg entries (ofRecords_append rs (.put e))).trans (entries_add _ _)
  | delete id =>
    by_cases hid : (ofRecords rs).entries.contains id = true
    · simp only [Record.added, hid, if_true]
      exact (congrArg entries (ofRecords_append rs (.delete id))).trans (entries_add _ _)
    · simp only [Record.added, hid, Bool.false_eq_true, if_false, List.append_nil]
      exact (Entries.delete_of_not_contains (Bool.eq_false_iff.2 hid)).symm

end Index

namespace LogStore

variable {d : Disk} {rs : List Record} {s : LogStore}

/-! ### What opening does -/

/-- **Opening a log** of certain records, of which it keeps `file`: it succeeds, with the index of
    the records.  A log that is kept whole is not touched, and nothing is said about it; any other
    is cut, once. -/
structure OpensOn (directory : String) (options : StoreOptions) (d : Disk) (file : Bytes)
    (rs : List Record) (s : LogStore) : Prop where
  /-- It succeeds, and leaves `file` in the log. -/
  opens : ∃ warnings, openOn directory options d = (.ok (s, warnings), { d with log := some file })
    ∧ (warnings = [] ↔ d.log = some file)
  /-- The store has the index of the records, and its log ends where the file does. -/
  store : s = opened (directory ++ "/" ++ fileName) options (.ofRecords rs) file.length
  /-- A log that is kept whole is not touched. -/
  effects : (opening directory options d).effects d
    = if d.log = some file then [.makeDirectory, .seekLog file.length]
      else [.makeDirectory, .cutLog ⟨Header.length, true⟩ file.length, .syncLog,
        .seekLog file.length]

namespace OpensOn

variable {directory : String} {options : StoreOptions} {file : Bytes}

theorem index_eq (h : OpensOn directory options d file rs s) : s.index = .ofRecords rs := by
  rw [h.store, opened]

theorem size_eq (h : OpensOn directory options d file rs s) : s.size = file.length := by
  rw [h.store, opened]

/-- The store is `InStep` with what was left of the log. -/
theorem inStep (h : OpensOn directory options d file rs s) (hdir : d.directory = .present)
    (hholds : Log.Holds file rs []) : s.InStep { d with log := some file } rs := by
  rw [h.store]
  exact inStep_opened _ options hdir rfl hholds rfl rfl

end OpensOn

/-- `parse` has something to say of a log just if something stands behind the records. -/
theorem stop_eq_none_iff {rest : Bytes} (h : (Log.parse rest).records = []) :
    (Log.parse rest).stop = none ↔ rest = [] := by
  constructor
  · -- If the first record could be read, it would be among the records.
    intro hstop
    by_contra hne
    cases hread : Record.decode rest with
    | error e => simp [Log.parse_of_error hne hread] at hstop
    | ok p =>
      obtain ⟨hfits, -, tail, rfl⟩ := Record.prefix_of_decode hread
      simp [Log.parse_record_append hfits] at h
  · rintro rfl
    rfl

/-- What `recover` gives and what it does to the disk. -/
theorem recover_run (path : String) (options : StoreOptions) {file tail : Bytes}
    (hlog : d.log = some file) (hholds : Log.Holds file rs tail) :
    let size := Header.length + (Log.bytes rs).length
    (recover path options file).run d
        = (.ok (opened path options (.ofRecords rs) size,
            ((Log.parse tail).stop.map (warning · (Log.bytes rs).length)).toList),
          { d with log := some (file.take size) })
      ∧ (recover path options file).effects d
        = if tail = [] then [.seekLog size]
          else [.cutLog ⟨Header.length, true⟩ size, .syncLog, .seekLog size] := by
  intro size
  have hlength : file.length = size + tail.length := hholds.length_eq
  rw [recover_eq path options hholds]
  by_cases htail : tail = []
  · -- Everything was read: the log is as long as its records, and only the cursor is moved.
    subst htail
    have hwhole : file.take size = file := List.take_of_length_le (by simp [hlength])
    have hsame : { d with log := some file } = d := by rw [← hlog]
    have huncut : ¬ size < file.length := by simp [hlength]
    rw [hwhole, hsame, if_pos rfl]
    show _ = _ ∧ _ = _
    simp only [size, huncut, if_false, Program.run_bind, Program.run_effect, Program.effects_bind,
      Program.effects_effect, Disk.attempt_seekLog, Bool.not_true, Bool.false_eq_true]
    exact ⟨rfl, rfl⟩
  · -- Something is left over, so the log is longer than its records and is cut.
    have hpos := List.length_pos_iff.2 htail
    have hcut : size < file.length := by omega
    have hattempt : d.attempt (.cutLog ⟨Header.length, true⟩ size) = _ :=
      Disk.attempt_cutLog hlog (Nat.le_of_lt hcut)
    rw [if_neg htail]
    simp only [size] at hcut hattempt ⊢
    simp only [hcut, if_true, Program.run_bind, Program.run_effect, Program.effects_bind,
      Program.effects_effect, hattempt, Disk.attempt_syncLog, Disk.attempt_seekLog, Bool.not_true,
      Bool.false_eq_true, if_false]
    exact ⟨rfl, rfl⟩

/-- `openOn` gives the `Longest` sequence of records, leaves just these in the log, and says why it
    goes no further. -/
theorem openOn_of_longest {head body rest : Bytes} (hhead : Header.Opens head)
    (hlongest : Log.Longest body rs rest) (hdir : d.directory = .present)
    (hlog : d.log = some (head ++ body)) (directory : String) (options : StoreOptions) :
    openOn directory options d
      = (.ok (opened (directory ++ "/" ++ fileName) options (.ofRecords rs)
            (head ++ Log.bytes rs).length,
          ((Log.parse rest).stop.map (warning · (Log.bytes rs).length)).toList),
        { d with log := some (head ++ Log.bytes rs) }) := by
  obtain ⟨hbody, -, -⟩ := Log.longest_iff.1 hlongest
  have hsize : (head ++ Log.bytes rs).length = Header.length + (Log.bytes rs).length := by
    rw [List.length_append, hhead.length_eq]
  have hkept : (head ++ body).take (head ++ Log.bytes rs).length = head ++ Log.bytes rs := by
    rw [hbody, ← List.append_assoc, List.take_left]
  obtain ⟨hrun, -⟩ := recover_run (directory ++ "/" ++ fileName) options hlog (hlongest.holds hhead)
  -- Recovery cuts at the end of the longest sequence, which is what `take` leaves.
  rw [← hsize, hkept] at hrun
  simp only [openOn, opening, hlog, Program.run_bind, Program.run_effect,
    Disk.attempt_makeDirectory hdir, Bool.not_true, Bool.false_eq_true, if_false]
  exact hrun

/-- **Opening a log** gives the `Longest` sequence of its records, and leaves just these in it. -/
theorem opensOn_of_longest {head body rest : Bytes} (hhead : Header.Opens head)
    (hlongest : Log.Longest body rs rest) (hdir : d.directory = .present)
    (hlog : d.log = some (head ++ body)) (directory : String) (options : StoreOptions) :
    ∃ s, OpensOn directory options d (head ++ Log.bytes rs) rs s := by
  obtain ⟨hbody, -, hrest⟩ := Log.longest_iff.1 hlongest
  have hsize : (head ++ Log.bytes rs).length = Header.length + (Log.bytes rs).length := by
    rw [List.length_append, hhead.length_eq]
  -- Nothing is cut exactly if the sequence is the whole body.
  have hwhole : d.log = some (head ++ Log.bytes rs) ↔ rest = [] := by
    rw [hlog, hbody]
    simp
  obtain ⟨-, heffects⟩ :=
    recover_run (directory ++ "/" ++ fileName) options hlog (hlongest.holds hhead)
  rw [← hsize] at heffects
  refine ⟨_, ⟨_, openOn_of_longest hhead hlongest hdir hlog directory options, ?_⟩, rfl, ?_⟩
  · rw [hwhole, ← stop_eq_none_iff hrest]
    cases (Log.parse rest).stop <;> simp
  · simp only [opening, hlog, Program.effects_bind, Program.effects_effect, Program.run_effect,
      Disk.attempt_makeDirectory hdir, Bool.not_true, Bool.false_eq_true, if_false]
    rw [heffects]
    simp only [← hlog, hwhole]
    split <;> rfl

/-! ### Appending -/

/-- Where nothing limits the length of a file, no effect of `append` fails. -/
theorem append_undisturbed (h : s.InStep d rs) (hunlimited : d.limit = none) (r : Record) :
    (s.append r).Undisturbed d := by
  obtain ⟨file, hlog, -, hsize⟩ := h.log
  -- Without a limit the whole record is admitted; cutting is never reached.
  have hwritten := Disk.attempt_writeLog hlog
  unfold append
  rw [if_neg (by simp [h.working])]
  cases hencode : r.encode with
  | error e => trivial
  | ok bytes =>
    have hwrite : (d.attempt (.writeLog s.handle bytes)).1 = true := by
      rw [h.handle, hsize, hwritten, Disk.admitted_of_unlimited hunlimited]
      exact decide_eq_true rfl
    simp only [Program.undisturbed_bind, Program.undisturbed_effect, Program.run_effect, hwrite,
      Bool.not_true, Bool.false_eq_true, if_false, true_and]
    split
    · simp
    · trivial

/-- `operation` adds the record to the log and acknowledges it, or does neither. -/
theorem operation_appends (h : s.InStep d rs) (r : Record) :
    ((s.program r.operation).run d).1.1 = .ok ()
        ∧ ((s.program r.operation).run d).1.2.InStep ((s.program r.operation).run d).2
          (rs ++ r.added s.entries)
      ∨ (∃ e, ((s.program r.operation).run d).1.1 = .error e)
        ∧ ((s.program r.operation).run d).1.2.InStep ((s.program r.operation).run d).2 rs := by
  cases r with
  | put e => exact (append_ensures h (.put e)).run
  | delete id =>
    -- A delete of a missing id writes nothing, so it adds nothing either.
    by_cases hid : s.entries.contains id = true
    · have hprogram : s.program (Record.delete id).operation = s.append (.delete id) := if_pos hid
      have hadded : (Record.delete id).added s.entries = [.delete id] := if_pos hid
      rw [hprogram, hadded]
      exact (append_ensures h (.delete id)).run
    · have hprogram : s.program (Record.delete id).operation = pure (.ok (), s) := if_neg hid
      have hadded : (Record.delete id).added s.entries = [] := if_neg hid
      rw [hprogram, hadded, List.append_nil]
      exact .inl ⟨rfl, h⟩

/-- Where nothing limits the length of a file, the `operation` of a record that `Fits` succeeds. -/
theorem operation_ok (h : s.InStep d rs) (hunlimited : d.limit = none) {r : Record}
    (hr : r.Fits) : ((s.program r.operation).run d).1.1 = .ok () := by
  cases r with
  | put e => exact append_ok h hr (append_undisturbed h hunlimited _)
  | delete id =>
    by_cases hid : s.entries.contains id = true
    · have hprogram : s.program (Record.delete id).operation = s.append (.delete id) := if_pos hid
      rw [hprogram]
      exact append_ok h hr (append_undisturbed h hunlimited _)
    · have hprogram : s.program (Record.delete id).operation = pure (.ok (), s) := if_neg hid
      rw [hprogram]
      rfl

/-- **Puts and deletes, one after another,** leave the store `InStep` with a log that has grown by
    what is `written`.  If nothing limits the length of a file and every record `Fits`, that is all
    of them. -/
theorem operations_append (h : s.InStep d rs) (wanted : List Record) :
    ∃ answers s' d', (Store.logged s d).run (wanted.map fun r => .perform r.operation)
        = (answers, some (.logged s' d'))
      ∧ s'.InStep d' (rs ++ s.entries.written wanted answers)
      ∧ (d.limit = none → (∀ r ∈ wanted, r.Fits) →
        answers = wanted.map fun _ => .done (.ok ())) := by
  induction wanted generalizing s d rs with
  | nil => exact ⟨[], s, d, rfl, (List.append_nil rs).symm ▸ h, fun _ _ => rfl⟩
  | cons r wanted ih =>
    have hlimit := (s.program r.operation).limit_run d
    have hok := fun hunlimited hr => @operation_ok d rs s h hunlimited r hr
    have happends := operation_appends h r
    generalize hrun : (s.program r.operation).run d = result at hlimit hok happends
    obtain ⟨⟨answer, s₁⟩, d₁⟩ := result
    have hcall : (Store.logged s d).call (.perform r.operation)
        = (.done answer, some (.logged s₁ d₁)) := by
      simp only [Store.call, Store.perform, hrun]
    -- What follows starts from the log that this operation left, acknowledged or not.
    have hcons : ∀ {answers : List StoreAnswer} {s' : LogStore} {d' : Disk},
        (Store.logged s₁ d₁).run (wanted.map fun r => .perform r.operation)
          = (answers, some (.logged s' d')) →
        (Store.logged s d).run ((r :: wanted).map fun r => .perform r.operation)
          = (.done answer :: answers, some (.logged s' d')) := by
      intro answers s' d' hmore
      rw [List.map_cons, Store.run, hcall]
      simp only [hmore]
    rcases happends with ⟨rfl, h₁⟩ | ⟨⟨e, rfl⟩, h₁⟩
    · obtain ⟨answers, s', d', hmore, h', hall⟩ := ih h₁
      have hentries : s₁.entries = r.operation.effect s.entries := by
        rw [h₁.entries_eq, h.entries_eq, Index.entries_added]
      refine ⟨.done (.ok ()) :: answers, s', d', hcons hmore, ?_, fun hunlimited hfits => ?_⟩
      · rw [List.append_assoc, hentries] at h'
        exact h'
      · rw [hall (hlimit.trans hunlimited) fun r' hr' => hfits r' (List.mem_cons_of_mem r hr'),
          List.map_cons]
    · obtain ⟨answers, s', d', hmore, h', -⟩ := ih h₁
      have hentries : s₁.entries = s.entries := h₁.entries_eq.trans h.entries_eq.symm
      refine ⟨.done (.error e) :: answers, s', d', hcons hmore, ?_, fun hunlimited hfits => ?_⟩
      · rw [hentries] at h'
        exact h'
      · exact absurd (hok hunlimited (hfits r List.mem_cons_self)) (by simp)

/-! ### Opening and opening again -/

/-- A store `InStep` leaves a log that opens with the same records, and that nothing is cut off. -/
theorem InStep.opensOn (h : s.InStep d rs) (directory : String) (options : StoreOptions) :
    ∃ file s', d.log = some file ∧ OpensOn directory options d file rs s' := by
  obtain ⟨file, hlog, ⟨head, hhead, rfl, hfits, hend⟩, -⟩ := h.log
  have hlongest : Log.Longest (Log.bytes rs ++ []) rs [] := Log.longest_iff.2 ⟨rfl, hfits, hend⟩
  obtain ⟨s', hopens⟩ := opensOn_of_longest hhead hlongest h.directory hlog directory options
  rw [List.append_nil] at hlog
  exact ⟨_, s', hlog, hopens⟩

/-- Puts and deletes that follow an opening add what is `written` to the records that were there,
    and the next opening finds the old ones and the new. -/
theorem InStep.opensOn_extended (h : s.InStep d rs) (wanted : List Record) :
    ∃ answers s₁ d₁, (Store.logged s d).run (wanted.map fun r => .perform r.operation)
        = (answers, some (.logged s₁ d₁))
      ∧ (d.limit = none → (∀ r ∈ wanted, r.Fits) → answers = wanted.map fun _ => .done (.ok ()))
      ∧ ∀ closing directory options, ∃ d₂ file s₂, (Store.logged s₁ d₁).left closing = .disk d₂
        ∧ d₂.log = some file
        ∧ OpensOn directory options d₂ file (rs ++ s.entries.written wanted answers) s₂ := by
  obtain ⟨answers, s₁, d₁, hrun, h₁, hall⟩ := operations_append h wanted
  refine ⟨answers, s₁, d₁, hrun, hall, fun closing directory options => ?_⟩
  obtain ⟨file, s₂, hfile, hagain⟩ := h₁.opensOn directory options
  exact ⟨d₁, file, s₂, Store.left_logged s₁ d₁ closing, hfile, hagain⟩

/-- A log that a store is `InStep` with, cut somewhere behind its header, opens with the records
    that are whole in front of the cut. -/
theorem InStep.opensOn_cut (h : s.InStep d rs) :
    ∃ head, Header.Opens head ∧ d.log = some (head ++ Log.bytes rs)
      ∧ ∀ cut, Header.length ≤ cut → ∀ directory options, ∃ s',
        OpensOn directory options { d with log := some ((head ++ Log.bytes rs).take cut) }
          (head ++ Log.bytes (Log.before (cut - Header.length) rs))
          (Log.before (cut - Header.length) rs) s' := by
  obtain ⟨file, hlog, ⟨head, hhead, rfl, hfits, -⟩, -⟩ := h.log
  rw [List.append_nil] at hlog
  refine ⟨head, hhead, hlog, fun cut hcut directory options => ?_⟩
  -- The cut leaves the header as it is and shortens only what stands behind it.
  have htake : (head ++ Log.bytes rs).take cut
      = head ++ (Log.bytes rs).take (cut - Header.length) := by
    rw [List.take_append, hhead.length_eq, List.take_of_length_le]
    rw [hhead.length_eq]
    exact hcut
  obtain ⟨rest, hlongest⟩ := Log.longest_take hfits (cut - Header.length)
  have hdir : ({ d with log := some (head ++ (Log.bytes rs).take (cut - Header.length)) } :
      Disk).directory = .present := h.directory
  rw [htake]
  exact opensOn_of_longest hhead hlongest hdir rfl directory options

/-- **A log with a valid header opens whatever stands behind the header,** under any options.  The
    store has the longest sequence of records that stands there back to back: its entries are their
    effects one after another, and the log is cut where they end, or not touched if they take all of
    it.  Opened again it gives the same store and is not touched.  Puts and deletes that are made
    in between add their records behind, all of them as long as nothing fails, and the next opening
    finds the old ones and the new.

    In particular, of a log that a store wrote, in whatever way it was used, and that was cut
    somewhere behind its header, opening gives the records that are whole in front of the cut. -/
theorem opens_any_content :
    (∀ {head : Bytes}, Header.Opens head → ∀ {d : Disk} {body : Bytes}, d.directory = .present →
      d.log = some (head ++ body) →
      ∃ rs front rest, body = front ++ rest ∧ Log.Longest body rs rest
        ∧ ∀ directory options, ∃ s, OpensOn directory options d (head ++ front) rs s
          ∧ s.entries = rs.foldl (fun es r => r.operation.effect es) .empty
          ∧ (∀ directory' options', ∃ s', OpensOn directory' options'
              { d with log := some (head ++ front) } (head ++ front) rs s'
            ∧ s'.index = s.index ∧ s'.size = s.size)
          ∧ ∀ wanted : List Record, ∃ answers s₁ d₁,
            (Store.logged s { d with log := some (head ++ front) }).run
                (wanted.map fun r => .perform r.operation) = (answers, some (.logged s₁ d₁))
              ∧ (d.limit = none → (∀ r ∈ wanted, r.encodedLength - 4 ≤ Record.maxFramed) →
                answers = wanted.map fun _ => .done (.ok ()))
              ∧ ∀ closing directory' options', ∃ d₂ file s₂,
                (Store.logged s₁ d₁).left closing = .disk d₂ ∧ d₂.log = some file
                  ∧ OpensOn directory' options' d₂ file (rs ++ s.entries.written wanted answers) s₂)
    ∧ ∀ {found : Disk} {directory : String} {options : StoreOptions} {s : Store}
        {warnings : List Warning} {m : Medium} {calls : List StoreCall} {l : LogStore} {d : Disk},
      (Medium.disk found).openWith directory options = (.ok (s, warnings), m) →
      (s.run calls).2 = some (.logged l d) →
      ∃ head rs, Header.Opens head ∧ d.log = some (head ++ Log.bytes rs) ∧ l.index = .ofRecords rs
        ∧ ∀ cut, Header.length ≤ cut → ∀ directory' options', ∃ s',
          OpensOn directory' options'
            { d with log := some ((head ++ Log.bytes rs).take cut) }
            (head ++ Log.bytes (Log.before (cut - Header.length) rs))
            (Log.before (cut - Header.length) rs) s' := by
  refine ⟨?_, ?_⟩
  · intro head hhead d body hdir hlog
    obtain ⟨rs, rest, hlongest⟩ := Log.exists_longest body
    obtain ⟨hbody, hfits, -⟩ := Log.longest_iff.1 hlongest
    have hholds : Log.Holds (head ++ Log.bytes rs) rs [] :=
      ⟨head, hhead, by rw [List.append_nil], hfits, rfl⟩
    refine ⟨rs, Log.bytes rs, rest, hbody, hlongest, fun directory options => ?_⟩
    obtain ⟨s, hopens⟩ := opensOn_of_longest hhead hlongest hdir hlog directory options
    have hstep := hopens.inStep hdir hholds
    refine ⟨s, hopens, ?_, fun directory' options' => ?_, fun wanted => ?_⟩
    · rw [hstep.entries_eq, Index.entries_ofRecords]
    · obtain ⟨file, s', hfile, hagain⟩ := hstep.opensOn directory' options'
      obtain rfl := Option.some.inj hfile
      exact ⟨s', hagain, hagain.index_eq.trans hopens.index_eq.symm,
        hagain.size_eq.trans hopens.size_eq.symm⟩
    · exact hstep.opensOn_extended wanted
  · intro found directory options s warnings m calls l d hopen hrun
    -- Whatever was called, the store is still in step with its log.
    obtain ⟨s', hlast, hsound, -⟩ := Store.run_sound (Store.sound_of_openWith hopen) calls
    rw [hrun] at hlast
    obtain rfl := Option.some.inj hlast
    obtain ⟨rs, hstep⟩ := hsound
    obtain ⟨head, hhead, hlog, hcut⟩ := hstep.opensOn_cut
    exact ⟨head, rs, hhead, hlog, hstep.index, hcut⟩

/-- A put, and then bytes that announce a record of three bytes: the put is found, the rest is cut
    off, and a delete that is made then is found behind the put. -/
theorem opens_any_content_corrupt :
    let file := Header.current.encode ++ (Record.put default).bytes
    let d : Disk := ⟨.present, some (file ++ [3, 0, 0, 0, 9]), .free, none⟩
    let options : StoreOptions := ⟨.always, .zero, 0, default⟩
    ∃ s s₁ d₁, OpensOn "batches" options d file [.put default] s
      ∧ (Store.logged s { d with log := some file }).run [.perform (.delete default)]
        = ([.done (.ok ())], some (.logged s₁ d₁))
      ∧ ∃ d₂ file₂ s₂, (Store.logged s₁ d₁).left true = .disk d₂ ∧ d₂.log = some file₂
        ∧ OpensOn "batches" options d₂ file₂ [.put default, .delete default] s₂ := by
  intro file d options
  -- The five bytes are a length prefix of 3, too small for any record, and two bytes behind it.
  have hfits : ∀ r ∈ [Record.put default], r.Fits := by
    intro r hr
    rw [List.mem_singleton.1 hr]
    decide
  have hlog : d.log = some (Header.current.encode
      ++ (Log.bytes [.put default] ++ [3, 0, 0, 0, 9])) := by
    simp [d, file]
  have hcorrupt : Record.decode [3, 0, 0, 0, 9]
      = .error (.invalidBody "record length 3 too small") := by
    decide
  -- The one record is the longest sequence there is, since the rest is refused.
  have hlongest : Log.Longest (Log.bytes [.put default] ++ [3, 0, 0, 0, 9]) [.put default]
      [3, 0, 0, 0, 9] :=
    (Log.backToBack_iff.2 ⟨rfl, hfits⟩).longest_of_error hcorrupt
  obtain ⟨rs, front, rest, hbody, hlongest', hopening⟩ :=
    opens_any_content.1 Header.opens_current rfl hlog
  -- The sequence is unique, so the theorem speaks of this one.
  obtain ⟨rfl, rfl⟩ := hlongest.unique hlongest'
  obtain rfl := List.append_cancel_right hbody
  obtain ⟨s, hopens, hentries, -, hmore⟩ := hopening "batches" options
  obtain ⟨answers, s₁, d₁, hrun, hall, hagain⟩ := hmore [.delete default]
  have hanswers : answers = [.done (.ok ())] := hall rfl (by decide)
  obtain ⟨d₂, file₂, s₂, hleft, hlog₂, hopens₂⟩ := hagain true "batches" options
  have hfound : s.entries.contains default = true := by
    rw [hentries]
    decide
  -- The delete finds its entry, so it is written.
  have hwritten : s.entries.written [.delete default] answers = [.delete default] := by
    rw [hanswers]
    simp [Entries.written, Record.added, hfound]
  rw [hwritten] at hopens₂
  rw [hanswers] at hrun
  have hfile : Header.current.encode ++ Log.bytes [.put default] = file := by simp [file]
  rw [hfile] at hopens hrun
  exact ⟨s, s₁, d₁, hopens, hrun, d₂, file₂, s₂, hleft, hlog₂, hopens₂⟩

end LogStore
end BatchJournal
