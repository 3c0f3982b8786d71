import BatchJournal.Proofs.Store.CrashRecovery

namespace BatchJournal

/-!
# A log store answers as a map does

As long as no effect fails and every record that is put fits, nobody can tell a store with a log
from one in memory by its answers: not by what is looked up, counted or scanned, and not by the
success of an operation, however often the log is compacted and the store opened again in between.

* `LogStore.program_ok` — an operation succeeds when no effect fails.
* `Store.run_eq_memory` — a sound store answers as a map of its entries.
* `Store.run_new_eq_memory` — a store on a new log answers as an empty map.
-/

namespace LogStore

variable {s : LogStore} {d : Disk} {rs : List Record}

/-! ### Success -/

theorem append_ok (h : s.InStep d rs) {r : Record} (hr : r.Fits)
    (hquiet : (s.append r).Undisturbed d) : ((s.append r).run d).1.1 = .ok () := by
  unfold append at hquiet ⊢
  rw [if_neg (by simp [h.working])] at hquiet ⊢
  simp only [Record.encode_of_fits hr, Program.undisturbed_bind, Program.undisturbed_effect,
    Program.run_bind, Program.run_effect] at hquiet ⊢
  obtain ⟨hwrite, -⟩ := hquiet
  simp only [hwrite, Bool.not_true, Bool.false_eq_true, if_false]
  split <;> rfl

theorem writeImage_ok {es : Entries} (h : ∀ r ∈ Index.puts es, r.Fits) {d : Disk}
    (hquiet : (writeImage es).Undisturbed d) : ∃ size, ((writeImage es).run d).1 = .ok size := by
  simp only [writeImage, image_eq h, Program.undisturbed_bind, Program.undisturbed_effect,
    Program.run_bind, Program.run_effect] at hquiet ⊢
  obtain ⟨hcreate, hquiet⟩ := hquiet
  simp only [hcreate, Bool.not_true, Bool.false_eq_true, if_false, Program.undisturbed_bind,
    Program.undisturbed_effect, Program.run_bind, Program.run_effect] at hquiet ⊢
  obtain ⟨hwrite, -⟩ := hquiet
  simp only [hwrite, Bool.not_true, Bool.false_eq_true, if_false]
  exact ⟨_, rfl⟩

theorem compact_ok (h : s.InStep d rs) (hquiet : s.compact.Undisturbed d) :
    (s.compact.run d).1.1 = .ok () := by
  simp only [compact, sync, Program.undisturbed_bind, Program.undisturbed_effect,
    Program.run_bind, Program.run_effect, Disk.attempt_syncLog, if_true, Program.run_pure]
    at hquiet ⊢
  -- The sync succeeds on every disk, so `hquiet` is about the image and the rename.
  obtain ⟨-, himage, hquiet⟩ := hquiet
  obtain ⟨size, hsize⟩ := writeImage_ok h.fits himage
  simp only [entries] at hsize hquiet ⊢
  simp only [hsize, Program.undisturbed_bind, Program.undisturbed_effect, Program.run_bind,
    Program.run_effect] at hquiet ⊢
  obtain ⟨hrename, -⟩ := hquiet
  simp only [hrename, Bool.not_true, Bool.false_eq_true, if_false]
  rfl

/-- **An operation succeeds** when it is `Undisturbed` and the record of a put `Fits`. -/
theorem program_ok (h : s.InStep d rs) {op : StoreOp}
    (hfits : ∀ e, op = .put e → (Record.put e).Fits) (hquiet : (s.program op).Undisturbed d) :
    ((s.program op).run d).1.1 = .ok () := by
  cases op with
  | put e => exact append_ok h (hfits e rfl) hquiet
  | delete id =>
    simp only [program, delete] at hquiet ⊢
    split at hquiet
    · rename_i hid
      rw [if_pos hid]
      exact append_ok h (Record.fits_delete id) hquiet
    · rename_i hid
      rw [if_neg hid]
      rfl
  | flush =>
    simp only [program, flush, sync, Program.undisturbed_bind, Program.undisturbed_effect,
      Program.run_bind, Program.run_effect, Disk.attempt_syncLog, if_true, Program.run_pure]
      at hquiet ⊢
    obtain ⟨-, hquiet⟩ := hquiet
    split at hquiet
    · rename_i hdue
      rw [if_pos hdue]
      exact compact_ok (h.synced false) hquiet
    · rename_i hdue
      rw [if_neg hdue]
      rfl
  | compact => exact compact_ok h hquiet

/-- **A new log opens** when `opening` is `Undisturbed`, without a warning. -/
theorem openOn_ok {directory : String} {options : StoreOptions} {found : Disk}
    (hnew : found.log = none) (hquiet : (opening directory options found).Undisturbed found) :
    ∃ s, (openOn directory options found).1 = .ok (s, []) := by
  simp only [openOn, opening, hnew, Program.undisturbed_bind, Program.undisturbed_effect,
    Program.run_bind, Program.run_effect] at hquiet ⊢
  obtain ⟨hmade, hquiet⟩ := hquiet
  simp only [hmade, create, Bool.not_true, Bool.false_eq_true, if_false,
    Program.undisturbed_bind, Program.undisturbed_effect, Program.run_bind, Program.run_effect]
    at hquiet ⊢
  obtain ⟨⟨hcreate, hquiet⟩, -⟩ := hquiet
  simp only [hcreate, Bool.not_true, Bool.false_eq_true, if_false, Program.undisturbed_bind,
    Program.undisturbed_effect, Program.run_bind, Program.run_effect] at hquiet ⊢
  obtain ⟨hwrite, -⟩ := hquiet
  simp only [hwrite, Bool.not_true, Bool.false_eq_true, if_false]
  exact ⟨_, rfl⟩

end LogStore

namespace Store

variable {s : Store}

/-! ### Agreement -/

/-- No effect fails in a call.  Only operations have effects that can fail once a store is open. -/
def Undisturbed : Store → StoreCall → Prop
  | .logged l d, .perform op => (l.program op).Undisturbed d
  | _, _ => True

/-- No effect fails in a run of calls: each is `Undisturbed`. -/
def RunsUndisturbed (s : Store) : List StoreCall → Prop
  | [] => True
  | c :: calls => s.Undisturbed c ∧ ∀ s' ∈ (s.call c).2, s'.RunsUndisturbed calls

instance : (s : Store) → (c : StoreCall) → Decidable (s.Undisturbed c)
  | .logged l d, .perform op => inferInstanceAs (Decidable ((l.program op).Undisturbed d))
  | .memory _, _ => .isTrue trivial
  | .logged _ _, .get _ | .logged _ _, .count | .logged _ _, .scan | .logged _ _, .sync
  | .logged _ _, .reopen _ _ _ => .isTrue trivial

instance decidableRunsUndisturbed :
    (s : Store) → (calls : List StoreCall) → Decidable (s.RunsUndisturbed calls)
  | _, [] => .isTrue trivial
  | s, c :: calls =>
    have (s' : Store) := decidableRunsUndisturbed s' calls
    inferInstanceAs (Decidable (_ ∧ ∀ s' ∈ (s.call c).2, s'.RunsUndisturbed calls))

/-- **One call:** a sound store answers as `memory` of its entries does, and both have the same
    entries afterwards. -/
theorem call_eq_memory (h : s.Sound) {c : StoreCall}
    (hfits : ∀ e, c = .perform (.put e) → (Record.put e).Fits) (hquiet : s.Undisturbed c) :
    ∃ s', s'.Sound ∧ (s.call c).2 = some s'
      ∧ (Store.memory s.entries).call c = ((s.call c).1, some (.memory s'.entries)) := by
  obtain ⟨s', hcall, hsound, hentries⟩ := call_sound h c
  refine ⟨s', hsound, hcall, ?_⟩
  rw [hentries]
  cases c with
  | perform op =>
    have hok : (s.perform op).1 = .ok () := by
      cases s with
      | memory es => rfl
      | logged l d =>
        obtain ⟨rs, hl⟩ := h
        exact LogStore.program_ok hl (fun e he => hfits e (by rw [he])) hquiet
    simp only [call, hok]
    rfl
  | get id => rfl
  | count => rfl
  | scan => rfl
  | sync =>
    obtain ⟨hok, -, -⟩ := sync_sound h
    simp only [call, hok]
    rfl
  | reopen directory options closing =>
    obtain ⟨s'', warnings, m', heq, -, -⟩ := reopen_sound h closing directory options
    simp only [call, heq]
    cases closing <;> rfl

/-- **A run of calls:** a sound store answers as `memory` of its entries does. -/
theorem run_eq_memory (h : s.Sound) {calls : List StoreCall}
    (hfits : ∀ e, .perform (.put e) ∈ calls → (Record.put e).Fits)
    (hquiet : s.RunsUndisturbed calls) :
    (s.run calls).1 = ((Store.memory s.entries).run calls).1 := by
  induction calls generalizing s with
  | nil => rfl
  | cons c calls ih =>
    obtain ⟨hcall, hrest⟩ := hquiet
    have hfits₁ : ∀ e, c = .perform (.put e) → (Record.put e).Fits := fun e he =>
      hfits e (by rw [he]; exact List.mem_cons_self)
    -- The answers agree call by call, and each call leaves a store that is sound again.
    obtain ⟨s', hsound, heq, hmemory⟩ := call_eq_memory h hfits₁ hcall
    have hpair : s.call c = ((s.call c).1, some s') := by rw [← heq]
    have hanswers := ih hsound (fun e he => hfits e (List.mem_cons_of_mem _ he)) (hrest s' heq)
    rw [run, run, hpair, hmemory]
    simp only [hanswers]

/-- **A store on a new log answers as `memory .empty` does,** under any options, through any
    compactions and re-openings, as long as no effect fails and every record that is put `Fits`. -/
theorem run_new_eq_memory {directory : String} {options : StoreOptions} {found : Disk}
    (hnew : found.log = none)
    (hquiet : (LogStore.opening directory options found).Undisturbed found) :
    ∃ s m, (Medium.disk found).openWith directory options = (.ok (s, []), m)
      ∧ ∀ calls, (∀ e, .perform (.put e) ∈ calls → (Record.put e).Fits) → s.RunsUndisturbed calls →
        (s.run calls).1 = ((Store.memory .empty).run calls).1 := by
  obtain ⟨l, hopen⟩ := LogStore.openOn_ok hnew hquiet
  obtain ⟨rs, hstep, hrecords⟩ := LogStore.inStep_of_opening hopen
  have hpair : LogStore.openOn directory options found
      = (.ok (l, []), (LogStore.openOn directory options found).2) := by rw [← hopen]
  -- A log just created has no records, so the store starts empty.
  generalize (LogStore.openOn directory options found).2 = d at hstep hpair
  have hempty : (Store.logged l d).entries = .empty := by
    show l.entries = .empty
    rw [hstep.entries_eq, hrecords hnew]
    rfl
  refine ⟨.logged l d, .disk d, by rw [Medium.openWith, hpair], ?_⟩
  intro calls hfits hruns
  have hsound : (Store.logged l d).Sound := ⟨rs, hstep⟩
  have hanswers := run_eq_memory hsound hfits hruns
  rwa [hempty] at hanswers

/-- On a new disk: a put, a look-up, a flush, a re-opening and a scan. -/
theorem run_new_eq_memory_fresh :
    ∃ s m,
      (Medium.disk .fresh).openWith "batches" ⟨.batched, .zero, 0, default⟩ = (.ok (s, []), m)
        ∧ (s.run [.perform (.put default), .get default, .perform .flush,
            .reopen "batches" ⟨.always, .zero, 1, default⟩ false, .scan]).1
          = [.done (.ok ()), .found (some default), .done (.ok ()), .done (.ok ()),
              .listed [default]] := by
  obtain ⟨s, m, hopen, hanswers⟩ :=
    @run_new_eq_memory "batches" ⟨.batched, .zero, 0, default⟩ .fresh rfl (by decide)
  refine ⟨s, m, hopen, hanswers _ ?_ ?_⟩
  · intro e he
    have hdefault : e = default := by simpa using he
    subst hdefault
    decide
  · obtain rfl := (Prod.mk.inj (Except.ok.inj (Prod.mk.inj hopen).1)).1
    decide +kernel

end Store

end BatchJournal
