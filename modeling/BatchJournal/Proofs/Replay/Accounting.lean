import BatchJournal.Proofs.Replay.Books

namespace BatchJournal

/-!
# The accounts of passes

The report of a pass is the one that follows from its visits, and the totals of the journal are the
sums of the reports.

* `Journal.Tallied` — the totals count what the reports count, also while a pass is under way.
* `Journal.Tallied.step` — every act keeps them so.
* `Journal.accounts_of_passes` — reports, store and totals agree with what has happened.
-/

/-- The act is the breakdown of a pass: `panic`. -/
def Act.breaksDown {W : WritePath} : Act W → Bool
  | .pass (.panic _) => true
  | _ => false

namespace Journal

variable {W : WritePath} {start g g' : Journal W} {p : Pass} {a : Act W} {reports : List Report}

/-- **A pass gives its report** and is gone, at `retire`. -/
def report? (g : Journal W) : Act W → Option Report
  | .pass .retire =>
    match g.pass.map Pass.phase with
    | some (.finished (.ok r)) => some r
    | _ => none
  | _ => none

/-- **The totals are the sums** of `reports`, of the one that is about to be given, and of what the
    pass under way has counted. -/
inductive Tallied (reports : List Report) (g : Journal W) : Prop where
  /-- There is no pass. -/
  | idle (seen : Nat) (hpass : g.pass = none) (hcounters : g.counters = .total seen reports)
  /-- A pass is under way. -/
  | underway {p : Pass} (seen : Nat) (hpass : g.pass = some p)
      (hphase : ∀ result, p.phase ≠ .finished result)
      (hcounters : g.counters = (Counters.total seen reports).plus p.report)
  /-- A pass is over. -/
  | ended {p : Pass} {r : Report} (seen : Nat) (hpass : g.pass = some p)
      (hphase : p.phase = .finished (.ok r))
      (hcounters : g.counters = .total seen (reports ++ [r]))

theorem awaiting_ne_finished (e : Entry) (pending dropped : Nat) (result : PassResult) :
    awaiting e pending dropped ≠ .finished result := by
  unfold awaiting
  split <;> simp

/-- A pass gives nothing before it is `finished`. -/
theorem report?_eq_none (hpass : g.pass = some p) (hphase : ∀ result, p.phase ≠ .finished result) :
    g.report? a = none := by
  unfold report?
  split
  · split
    · rename_i r hover
      rw [hpass, Option.map_some, Option.some.injEq] at hover
      exact absurd hover (hphase _)
    · rfl
  · rfl

/-- **A `PassMove`** counts the same in the report and in the totals. -/
theorem Tallied.move {seen : Nat} {act : PassAct} (hphase : ∀ result, p.phase ≠ .finished result)
    (h : g.counters = (Counters.total seen reports).plus p.report)
    (hmove : g.PassMove p act g') (hsteady : Act.breaksDown (.pass act : Act W) = false) :
    Tallied reports g' := by
  -- A pass that is over has given what it counted.
  have hover : ∀ cancelled, Tallied reports (g.finish p cancelled) := by
    intro cancelled
    refine .ended seen rfl rfl ?_
    show { g.counters with passes := g.counters.passes + 1 } = _
    rw [h, Counters.total_concat]
    rfl
  cases hmove with
  | exhausted hp hscan | stopped hp hstop | wokenToStop hp hstop => exact hover _
  | panicked => simp [Act.breaksDown] at hsteady
  | retired hp => exact absurd hp (hphase _)
  | undecodable hp hage hdecode =>
    refine .underway seen rfl (by simp) ?_
    show { g.counters with decodeFailures := g.counters.decodeFailures + 1 } = _
    rw [h]
    rfl
  | counted hp =>
    refine .underway seen rfl (by simp) ?_
    show { g.counters with applyFailures := g.counters.applyFailures + 1 } = _
    rw [h]
    rfl
  | deleted hp hdelete =>
    rename_i e dropped failure g₁
    obtain ⟨store, rfl⟩ := exists_store_of_onStore hdelete
    refine .underway seen rfl (by simp) ?_
    show { g.counters with
      replayed := g.counters.replayed + 1
      truncatedSkipped := g.counters.truncatedSkipped + dropped } = _
    rw [h]
    simp only [Counters.plus, Nat.add_assoc]
  | undeleted hp hdelete =>
    obtain ⟨store, rfl⟩ := exists_store_of_onStore hdelete
    exact .underway _ rfl (by simp) h
  | accepted hp hage hdecode hnext | paced hp hnext =>
    rcases hnext with rfl | rfl <;> exact .underway _ rfl (by simp) h
  | offeredAll hp | collected hp hmailbox =>
    exact .underway _ rfl (awaiting_ne_finished _ _ _) h
  | skipped hp hscan | fetched hp hscan | tooYoung hp hage | woken hp | dropped hp htruncated hlate
  | kept hp hkept | attempted hp | refusedClosed hp hclosed | offered hp hopen
  | refusedFull hp hfull | inserted hp hpush | roused hp hrouse | collectedError hp hmailbox
  | abandoned hp hmailbox hnobody | expired hp => exact .underway _ rfl (by simp) h

/-- Who has nothing to do with passes leaves the totals, up to `seen`. -/
theorem counters_of_step (hother : ∀ act, a ≠ .pass act) (hstay : a.restarts = false)
    (hstep : g.step a = some g') : ∃ seen, g'.counters = { g.counters with seen } := by
  cases stepMove_of_step hstep with
  | worker hstep =>
    obtain ⟨path, pool, mailbox, strays, rfl, -⟩ := changes_of_workerStep hstep
    exact ⟨g.counters.seen, rfl⟩
  | begun | passed => exact absurd rfl (hother _)
  | restarted => exact Bool.noConfusion hstay
  | aside => exact ⟨_, rfl⟩

/-- **Every act** keeps `Tallied`, with the `report?` that it gives, as long as no pass
    `breaksDown`. -/
theorem Tallied.step (h : Tallied reports g) (hstay : a.restarts = false)
    (hsteady : a.breaksDown = false) (hstep : g.step a = some g') :
    Tallied (reports ++ (g.report? a).toList) g' := by
  by_cases hact : ∃ act, a = .pass act
  · obtain ⟨act, rfl⟩ := hact
    rcases pass_cases hstep with ⟨ticket, rfl, hbegin⟩ | ⟨p, hpass, hmove⟩
    · obtain ⟨hnone, number, throttle, rfl⟩ := begin_cases hbegin
      show Tallied (reports ++ []) _
      rw [List.append_nil]
      cases h with
      | idle seen _ hcounters => exact .underway _ rfl (by simp) hcounters
      | underway seen hpass | ended seen hpass => simp [hnone] at hpass
    · -- A pass under way moves on within it; one that has ended retires.
      cases h with
      | idle seen hnone => simp [hnone] at hpass
      | underway seen hpass' hphase hcounters =>
        obtain rfl := Option.some.inj (hpass.symm.trans hpass')
        rw [report?_eq_none hpass hphase, Option.toList_none, List.append_nil]
        exact Tallied.move hphase hcounters hmove hsteady
      | ended seen hpass' hphase hcounters =>
        obtain rfl := Option.some.inj (hpass.symm.trans hpass')
        -- The report is put down as the ended pass retires.
        rcases move_of_finished hphase hmove with ⟨message, rfl, -⟩ | ⟨rfl, control, rfl⟩
        · simp [Act.breaksDown] at hsteady
        · simp only [report?, hpass, Option.map_some, hphase, Option.toList_some]
          exact .idle _ rfl hcounters
  · -- Acts of others change only how many batches were seen.
    have hother : ∀ act, a ≠ .pass act := fun act heq => hact ⟨act, heq⟩
    have hnone : g.report? a = none := by
      cases a <;> first | rfl | exact absurd rfl (hother _)
    obtain ⟨hsame, -, -⟩ := same_of_step hother hstay hstep
    obtain ⟨seen, hseen⟩ := counters_of_step hother hstay hstep
    rw [hnone, Option.toList_none, List.append_nil]
    cases h with
    | idle _ hpass hcounters =>
      exact .idle seen (hsame.trans hpass) (by rw [hseen, hcounters]; rfl)
    | underway _ hpass hphase hcounters =>
      exact .underway seen (hsame.trans hpass) hphase (by rw [hseen, hcounters]; rfl)
    | ended _ hpass hphase hcounters =>
      exact .ended seen (hsame.trans hpass) hphase (by rw [hseen, hcounters]; rfl)

/-- **The accounts of passes are right.** In a journal that was opened with valid settings, over a
    store that was opened on any medium:
    let a pass begin, whatever was done before, and let nobody else change what is stored; if it
    comes to its report and was not cancelled, whatever the clock, the write path, the store and
    the formats did to its entries, then each entry of the start was visited once and in order, the
    report counts what became of them, just the replayed ones are gone from the store, and those
    that were eligible and stay are the ones that it calls retained;
    and between passes, as long as none has broken down, the totals are the sums of the reports that
    were given since the journal was opened, one for each pass. -/
theorem accounts_of_passes {settings : Settings} {registry : Registry} {store : Store}
    {path : W.State} {strays : List Delivery} {medium left : Medium} {directory : String}
    {options : StoreOptions} {warnings : List Warning}
    (hstore : medium.openWith directory options = (.ok (store, warnings), left))
    {fresh : Journal W} (hfresh : overStore settings registry store path strays = .ok fresh)
    {past : List (Act W)} (hpast : fresh.run past = some start) :
    (∀ ticket g acts g' p r, start.step (.pass (.begin ticket)) = some g → g.run acts = some g' →
        (∀ a ∈ acts, a.alone = true) → g'.pass = some p → p.phase = .finished (.ok r) →
        r.cancelled = false → start.Accounts g acts g' r)
      ∧ ((∀ a ∈ past, a.restarts = false ∧ a.breaksDown = false) → start.pass = none →
        start.counters = .total start.counters.seen (fresh.along report? past)) := by
  obtain ⟨-, hopened⟩ := overStore_eq_ok hfresh
  have hsound : fresh.store.Sound := by
    rw [hopened]
    exact Store.sound_of_openWith hstore
  refine ⟨fun ticket g acts g' p r hbegin hrun halone hpass hfinished hfull => ?_,
    fun hsteady hidle => ?_⟩
  · -- The books of the pass are kept from its beginning.
    have hsound := sound_of_run hsound hpast
    obtain ⟨p₂, hpass₂, hbooks⟩ := books_of_run hsound hbegin halone hrun
    obtain rfl := Option.some.inj (hpass.symm.trans hpass₂)
    rcases hbooks with hcut | hbooks
    · rw [hfinished] at hcut
      exact absurd (hcut.symm.trans hfull) (by simp)
    · exact hbooks.accounts hfinished
  · -- Induction on the acts: the totals are those of the reports so far.
    have htallied : Tallied (fresh.along report? past) start := by
      refine run_induction (I := fun past g => Tallied (fresh.along report? past) g)
        (.idle 0 (by rw [hopened]; rfl) (by rw [hopened]; rfl)) ?_ hpast
      intro earlier g₁ a g₂ ha hearlier hstep h
      rw [along_concat hearlier]
      exact h.step (hsteady a ha).1 (hsteady a ha).2 hstep
    cases htallied with
    | idle seen _ hcounters => rw [hcounters]; rfl
    | underway seen hpass | ended seen hpass => simp [hidle] at hpass

/-- Two entries, the first of which is replayed and the second not decoded. -/
theorem accounts_of_passes_undecodable :
    ∃ past acts start g g' g'',
      (holding 1 1 ⟨default, ⟨5⟩, ⟨0⟩, [1]⟩).run past = some start
        ∧ start.step (.pass (.begin 0)) = some g ∧ g.run acts = some g'
        ∧ start.Accounts g acts g' ⟨1, 2, 0, 1, 1, 0, 0, 0, 1, false⟩
        ∧ g'.step (.pass .retire) = some g''
        ∧ g''.counters = .total 0 [⟨1, 2, 0, 1, 1, 0, 0, 0, 1, false⟩] := by
  let past : List (Act replicaPath) :=
    [.path (.createTable ⟨"toy", "t"⟩),
      .client (.put ⟨⟨List.replicate 16 1, rfl⟩, ⟨5⟩, ⟨7⟩, []⟩ none), .control (.board none)]
  let acts : List (Act replicaPath) :=
    [.pass .fetch, .pass (.consider ⟨5⟩), .pass .sort, .pass .sort, .pass .offer, .pass .insert,
      .pass (.rouse none), .pass .offer, .worker (.proceed 0), .worker (.apply 0 none),
      .worker (.report 0), .pass .collect, .pass (.delete none), .pass .fetch,
      .pass (.consider ⟨5⟩), .pass .fetch]
  have hstore : (Medium.memory (Entries.empty.put ⟨default, ⟨5⟩, ⟨0⟩, [1]⟩)).openWith ""
      ⟨.always, .zero, 0, default⟩ = (.ok (.memory _, []), .memory _) := rfl
  have hfresh : @overStore replicaPath
      { Settings.standard with replayTimeout := 0, throttleKib := 0, workers := 1, queueDepth := 1 }
      (.single (.counting ⟨0⟩)) (.memory _) Replica.empty []
      = .ok (holding 1 1 ⟨default, ⟨5⟩, ⟨0⟩, [1]⟩) := rfl
  have hpast : (holding 1 1 ⟨default, ⟨5⟩, ⟨0⟩, [1]⟩).run past = some _ := rfl
  have hwhole : (holding 1 1 ⟨default, ⟨5⟩, ⟨0⟩, [1]⟩).run
      (past ++ .pass (.begin 0) :: acts ++ [.pass .retire]) = some _ := rfl
  obtain ⟨haccounts, -⟩ := accounts_of_passes hstore hfresh hpast
  -- The accounts of the second pass, and the totals of both, come from one run each.
  obtain ⟨-, htotals⟩ := accounts_of_passes hstore hfresh hwhole
  refine ⟨past, acts, _, _, _, _, hpast, rfl, rfl, ?_, rfl, ?_⟩
  · exact haccounts 0 _ acts _ _ _ rfl rfl (by decide +kernel) rfl rfl rfl
  · exact htotals (by decide +kernel) rfl

end Journal

end BatchJournal
