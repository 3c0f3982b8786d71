import BatchJournal.Proofs.Log.Counting
import BatchJournal.Proofs.Store.Compaction

namespace BatchJournal

/-!
# The books of a store are exact

A store counts its records, the dead ones among them, and its bytes, and never looks at its log
again to do so.  Live calls count by other rules than recovery does, and compaction starts anew; all
of them agree with what the log says, whatever was done to the store and whatever failed.

* `LogStore.Booked` — the counts and the size of a store against its entries and its log.
* `LogStore.reopens_alike` — what is opened after a store was closed has the same books.
* `LogStore.booked_of_reached` — the books of every store that can be reached.
* `LogStore.size_misses_failed_put` — a complete record that a broken store does not count.
-/

/-- An empty script lets nothing fail but what the disk refuses, as `run` does. -/
theorem Program.runWith_nil {α : Type} (p : Program α) (d : Disk) : p.runWith [] d = p.run d := by
  induction p generalizing d with
  | done a => rfl
  | perform e next ih => exact ih _ _

namespace LogStore

variable {s : LogStore} {d : Disk} {rs : List Record} {culprit : Option Record}

/-- **The same books:** entries, counts and size agree. -/
structure SameBooks (s s' : LogStore) : Prop where
  /-- The live entries. -/
  entries : s'.entries = s.entries
  /-- The records. -/
  records : s'.index.records = s.index.records
  /-- The dead ones among them. -/
  garbage : s'.garbage = s.garbage
  /-- The size. -/
  size : s'.size = s.size

/-- **A store that opens alike:** its log opens without a warning and is not touched, and whoever
    opens it, whatever fails on the way, has the `SameBooks` if he has a store. -/
structure OpensAlike (s : LogStore) (d : Disk) : Prop where
  /-- The log opens. -/
  opens : ∀ directory options, ∃ s', openOn directory options d = (.ok (s', []), d)
  /-- What is opened works and has the same books. -/
  same : ∀ directory options script s' warnings d',
    (opening directory options d).runWith script d = (.ok (s', warnings), d')
    → s'.broken = false ∧ s.SameBooks s'

/-- **The books of a store** and its log: what `index`, `garbage` and `size` say is so. -/
structure Booked (s : LogStore) (d : Disk) (culprit : Option Record) : Prop where
  /-- Every record is dead, in `garbage`, or the put of a live entry. -/
  records : s.index.records = s.garbage + s.entries.count
  /-- So no more records are dead than there are. -/
  garbage : s.garbage ≤ s.index.records
  /-- The log is a header and the records that the store counts, with as many bytes as it says.
      These are all complete records of the log, except that behind them a store that is broken may
      have left the record whose write failed. -/
  log : ∃ head rs rest, Header.Opens head ∧ d.log = some (head ++ (Log.bytes rs ++ rest))
    ∧ s.index = .ofRecords rs ∧ s.index.records = rs.length
    ∧ s.size = 16 + (rs.map Record.encodedLength).sum
    ∧ (Log.Longest (Log.bytes rs ++ rest) rs rest
      ∨ s.broken = true ∧ ∃ failed, culprit = some failed ∧ rest = failed.bytes)
  /-- The log of a store that takes writes is as long as `size` says. -/
  length : s.broken = false → d.log.map List.length = some s.size
  /-- If such a store is closed, its log opens with the same books. -/
  reopens : s.broken = false → ∀ script, s.OpensAlike (s.close.runWith script d).2

/-! ### Opening -/

/-- **A store `InStep` with its disk `OpensAlike`.** -/
theorem InStep.opensAlike (h : s.InStep d rs) : s.OpensAlike d where
  opens directory options := by
    obtain ⟨file, s', hlog, hopens⟩ := h.opensOn directory options
    obtain ⟨warnings, hopen, hquiet⟩ := hopens.opens
    have hsame : { d with log := some file } = d := by rw [← hlog]
    rw [hquiet.2 hlog, hsame] at hopen
    exact ⟨s', hopen⟩
  same directory options script s' warnings d' hopen := by
    have hopened := (opening_survives directory options d).runWith script
    rw [hopen] at hopened
    -- Both stores keep the same records, hence the same index and the same size.
    obtain ⟨rs', hstep, hunique⟩ := hopened s' warnings rfl
    obtain rfl := hunique rs h.keeps
    have hindex : s'.index = s.index := hstep.index.trans h.index.symm
    have hsize : s'.size = s.size := by
      have hcondition : s'.Condition d' rs none := hstep
      have hcondition' : s.Condition d rs none := h
      exact hcondition.facts.2.2.2.trans hcondition'.facts.2.2.2.symm
    exact ⟨hstep.working, congrArg Index.entries hindex, congrArg Index.records hindex,
      congrArg Index.dead hindex, hsize⟩

/-! ### Every store that can be reached -/

/-- A store that is not `broken` is `InStep` with its disk. -/
theorem Condition.inStep (h : s.Condition d rs culprit) (hworks : s.broken = false) :
    s.InStep d rs := by
  cases culprit with
  | none => exact h
  | some failed =>
    have htorn : s.Torn d rs failed := h
    exact absurd htorn.broken (by simp [hworks])

/-- **The books are exact** in every state that a store can come to: what is `Reached` is
    `Booked`. -/
theorem booked_of_reached (h : Reached s d culprit) : s.Booked d culprit := by
  obtain ⟨rs, hcondition⟩ := condition_of_reached h
  obtain ⟨-, -, hindex, hsize⟩ := hcondition.facts
  rw [Log.length_bytes] at hsize
  -- Every record of the log is either live or dead, in step or torn.
  have hrecords : s.index.records = s.index.dead + s.index.entries.count := by
    rw [hindex]
    exact Index.records_ofRecords rs
  have hcounted : s.index.records = rs.length := by
    rw [hindex]
    exact Index.length_of_ofRecords rs
  constructor
  · exact hrecords
  · exact hrecords ▸ Nat.le_add_right _ _
  · cases culprit with
    | none =>
      have hstep : s.InStep d rs := hcondition
      obtain ⟨file, hlog, ⟨head, hhead, rfl, hfits, hend⟩, -⟩ := hstep.log
      exact ⟨head, rs, [], hhead, hlog, hindex, hcounted, hsize,
        .inl (Log.longest_iff.2 ⟨rfl, hfits, hend⟩)⟩
    | some failed =>
      have htorn : s.Torn d rs failed := hcondition
      obtain ⟨file, part, hlog, hholds, -, hbegins⟩ := htorn.log
      -- The torn record is in the file in part or as a whole; only in part is it cut on opening.
      by_cases hwhole : part = failed.bytes
      · obtain ⟨head, hhead, rfl, -, -⟩ := hholds
        rw [List.append_nil, List.append_assoc] at hlog
        exact ⟨head, rs, part, hhead, hlog, hindex, hcounted, hsize,
          .inr ⟨htorn.broken, failed, rfl, hwhole⟩⟩
      · obtain ⟨head, hhead, hfile, hfits, hend⟩ := hholds.torn htorn.fits hbegins hwhole
        rw [hfile] at hlog
        exact ⟨head, rs, part, hhead, hlog, hindex, hcounted, hsize,
          .inl (Log.longest_iff.2 ⟨rfl, hfits, hend⟩)⟩
  · -- A working store has no torn record, so its log ends where its size says.
    intro hworks
    obtain ⟨file, hlog, -, hlength⟩ := (hcondition.inStep hworks).log
    rw [hlog, hlength]
    rfl
  · intro hworks script
    have hclosed : (s.close.runWith script d).2 = d := (close_survives s d).runWith script
    rw [hclosed]
    exact (hcondition.inStep hworks).opensAlike

/-- A log of somebody else, of a put, a delete of an id that it does not have, and the beginning of
    a third record: one record is dead.  Then the entry is put again, so two are, and deleted, so
    all four are. -/
theorem booked_of_reached_foreign :
    let rs : List Record := [.put default, .delete ⟨List.replicate 16 1, rfl⟩]
    let found : Disk :=
      ⟨.present, some (Header.current.encode ++ (Log.bytes rs ++ [7])), .free, none⟩
    ∃ s₁ s₂ s₃ d₁ d₂ d₃ warnings,
      (opening "batches" ⟨.always, .zero, 1000, default⟩ found).runWith [] found
          = (.ok (s₁, warnings), d₁)
        ∧ (s₁.respond (.perform (.put default))).runWith [] d₁ = ((.ok (), s₂), d₂)
        ∧ (s₂.respond (.perform (.delete default))).runWith [] d₂ = ((.ok (), s₃), d₃)
        ∧ (s₁.index.records, s₁.garbage, s₁.entries.count) = (2, 1, 1)
        ∧ (s₂.index.records, s₂.garbage, s₂.entries.count) = (3, 2, 1)
        ∧ (s₃.index.records, s₃.garbage, s₃.entries.count) = (4, 4, 0)
        ∧ s₁.Booked d₁ none ∧ s₂.Booked d₂ none ∧ s₃.Booked d₃ none := by
  intro rs found
  have hfits : ∀ r ∈ rs, r.Fits := by decide
  have htorn : Record.decode [7] = .error .insufficientData := by decide
  have hlongest : Log.Longest (Log.bytes rs ++ [7]) rs [7] :=
    (Log.backToBack_iff.2 ⟨rfl, hfits⟩).longest_of_error htorn
  obtain ⟨s₁, hopens⟩ := opensOn_of_longest (d := found) Header.opens_current hlongest rfl rfl
    "batches" ⟨.always, .zero, 1000, default⟩
  obtain ⟨warnings, hopen, -⟩ := hopens.opens
  obtain rfl := hopens.store
  have hrun : (opening "batches" ⟨.always, .zero, 1000, default⟩ found).runWith [] found = _ :=
    (Program.runWith_nil _ found).trans hopen
  -- A call after which the store takes writes leads on.
  have hcalled : ∀ (s s' : LogStore) (d d' : Disk) (c : LogCall),
      (s.respond c).runWith [] d = ((.ok (), s'), d') → s'.broken = false → Reached s d none
      → Reached s' d' none := by
    intro s s' d d' c hcall hworks hreached
    have hnext := Reached.called hreached hcall
    rwa [hworks, if_neg Bool.false_ne_true] at hnext
  have hreached := Reached.opened hrun
  have hreached' := hcalled _ _ _ _ (.perform (.put default)) rfl rfl hreached
  have hreached'' := hcalled _ _ _ _ (.perform (.delete default)) rfl rfl hreached'
  exact ⟨_, _, _, _, _, _, _, hrun, rfl, rfl, rfl, rfl, rfl, booked_of_reached hreached,
    booked_of_reached hreached', booked_of_reached hreached''⟩

/-- **A record that nobody counts.**  All that stands behind the header in the log of
    `unsyncedStore` is one complete record, and the store says that its log has no more than the
    header. -/
theorem size_misses_failed_put :
    ∃ s d rs, Reached s d (some (.put default))
      ∧ d.log = some (Header.current.encode ++ Log.bytes rs) ∧ Log.Longest (Log.bytes rs) rs []
      ∧ s.size = 16 ∧ 16 + (rs.map Record.encodedLength).sum = 57
      ∧ (s.index.records, rs.length) = (0, 1) := by
  have hlongest : Log.Longest (Log.bytes [.put default]) [.put default] [] :=
    Log.longest_iff.2 ⟨(List.append_nil _).symm, by decide, rfl⟩
  exact ⟨unsyncedStore, unsyncedDisk, [.put default], reached_unsynced, rfl, hlongest, rfl, rfl, rfl⟩

end LogStore

end BatchJournal
