import BatchJournal.Proofs.Codec.MessagePack
import BatchJournal.Proofs.Journal.Handing
import BatchJournal.Proofs.Journal.Storing
import BatchJournal.Proofs.Replay.Delivery
import BatchJournal.Proofs.Store.Failures

namespace BatchJournal

/-!
# What is replayed is what was submitted

Between a submission and the replay of its batch lie the encoding of the mutations, the record of
the entry, any number of compactions and restarts, and the decoding.  Each of them gives back what
it was given, so what the write path is asked for in the end is what was submitted.

* `Journal.decode_of_submit` — a payload that was stored in a log reads as what was submitted.
* `Journal.Honours` — what a journal owes to a batch.
* `Journal.honours_of_submit` — and grants it, whatever happens after the submission.
-/

namespace Journal

variable {W : WritePath} {start g g' : Journal W} {acts : List (Act W)} {e : Entry}
  {id : BatchId} {ms : List Mutation} {written : Timestamp} {failure : Option StoreError}

/-! ### The payload -/

/-- **What a log takes reads as what was submitted:** no payload that fits into a record is too long
    for its heads, so `decode` gives `ms`. -/
theorem decode_of_submit (hsound : g.store.Sound) (hdisk : g.OnDisk)
    (hregistry : g.registry = .standard)
    (hsubmit : g.submit id ms written failure = (.ok e, g')) :
    e = ⟨id, written, Registry.standard.current, e.payload⟩
      ∧ Registry.standard.decode e.version e.payload = .ok ms := by
  obtain ⟨hsound', ⟨e', hok, hencode, he, -, hentries⟩ | ⟨err, herror, -⟩⟩ :=
    submit_cases hsound id ms written failure
  · rw [hsubmit] at hok hentries hsound'
    obtain rfl := Except.ok.inj hok
    rw [hregistry] at hencode he
    have hdisk' : g'.OnDisk := by
      have hstep : g.step (.client (.submit id ms written failure)) = some g' := by
        simp only [step, clientStep, hsubmit]
      exact hdisk.step hstep
    -- The payload was framed for the log, which bounds the length of each of its parts.
    have hget : g'.entries.get? e.id = some e := by
      have hafter : g'.entries = g.entries.put e := hentries
      rw [hafter, Entries.get?_put, if_pos rfl]
    have hlength := Record.length_payload_lt (fits_of_get? hsound' hdisk' hget)
    refine ⟨he, ?_⟩
    have hversion : e.version = Registry.standard.current := by rw [he]
    rw [hversion]
    exact Registry.decode_standard hencode hlength
  · rw [hsubmit] at herror
    simp at herror

/-- **No pass counts an entry as unreadable** that decodes: `decodeFailures` stays. -/
theorem decodeFailures_of_passStep {act : PassAct} (hstep : g.step (.pass act) = some g')
    (hdecodes : ∀ e, g.inHand? = some e → ∃ ms, g.registry.decode e.version e.payload = .ok ms) :
    g'.counters.decodeFailures = g.counters.decodeFailures
      ∧ ∀ p p', g.pass = some p → g'.pass = some p'
        → p'.report.decodeFailures = p.report.decodeFailures := by
  rcases pass_cases hstep with ⟨ticket, rfl, hbegin⟩ | ⟨p, hpass, hmove⟩
  · obtain ⟨hnone, number, throttle, rfl⟩ := begin_cases hbegin
    exact ⟨rfl, fun p p' hp => by simp [hnone] at hp⟩
  · have hreport : ∀ {p₁ : Pass}, g'.pass = some p₁ →
        p₁.report.decodeFailures = p.report.decodeFailures → ∀ p₀ p', g.pass = some p₀ →
          g'.pass = some p' → p'.report.decodeFailures = p₀.report.decodeFailures := by
      -- A step has one pass before and one after, so both halves read the same two reports.
      intro p₁ hp₁ hsame p₀ p' hp₀ hp'
      obtain rfl := Option.some.inj (hpass.symm.trans hp₀)
      obtain rfl := Option.some.inj (hp₁.symm.trans hp')
      exact hsame
    cases hmove with
    | undecodable hphase hage hdecode =>
      -- The entry in hand decodes by hypothesis, so this move is out of the question.
      obtain ⟨ms, hms⟩ := hdecodes _ (by simp [inHand?, hpass, hphase, Phase.held?]; rfl)
      rw [hms] at hdecode
      simp at hdecode
    | deleted hphase hdelete | undeleted hphase hdelete =>
      obtain ⟨store, rfl⟩ := exists_store_of_onStore hdelete
      exact ⟨rfl, hreport rfl rfl⟩
    | retired hphase => exact ⟨rfl, fun p p' _ hp' => by simp at hp'⟩
    | _ => exact ⟨rfl, hreport rfl rfl⟩

/-! ### What was handed out -/

/-- What a run hands out for the entries under `id` are their mutations, at their time, as long as
    nobody writes there. -/
theorem handings_of_under {P : Entry → Prop} (h : start.Under id P) (hdecoded : start.Decoded)
    (hother : ∀ a ∈ acts, a.written? ≠ some id) {d : Delivery} (hmem : (e, d) ∈ start.handings acts)
    (hid : e.id = id) : P e ∧ d.written = e.written ∧ start.Belongs d.mutation e := by
  obtain ⟨earlier, a, rest, g, rfl, hrun, hhanded⟩ := exists_of_mem_along hmem
  have hdecoded' : g.Decoded := run_keeps (I := Decoded) Decoded.step hdecoded hrun
  obtain ⟨hheld, hwritten, hbelongs⟩ := handed_spec hdecoded' hhanded
  have hunder := h.run (fun b hb => hother b (List.mem_append_left _ hb)) hrun
  refine ⟨hunder.held e hheld hid, hwritten, ?_⟩
  rwa [Belongs, ← registry_of_run hrun]

/-- **What a journal owes to a batch** `ms` that was stored as the entry `e`, at any time after. -/
structure Honours (start : Journal W) (acts : List (Act W)) (g : Journal W) (e : Entry)
    (ms : List Mutation) : Prop where
  /-- Nothing else is stored under its id. -/
  stored : ∀ e', g.entries.get? e.id = some e' → e' = e
  /-- Its payload reads as `ms`. -/
  decoded : g.registry.decode e.version e.payload = .ok ms
  /-- No pass counts it in `decodeFailures`. -/
  readable : ∀ act g' e', g.step (.pass act) = some g' → g.inHand? = some e' → e'.id = e.id →
    g'.counters.decodeFailures = g.counters.decodeFailures
      ∧ ∀ p p', g.pass = some p → g'.pass = some p'
        → p'.report.decodeFailures = p.report.decodeFailures
  /-- What was handed to the pool for it are its mutations, at its time. -/
  handed : ∀ e' d, (e', d) ∈ start.handings acts → e'.id = e.id →
    e' = e ∧ d.mutation ∈ ms ∧ d.written = e.written
  /-- The write path is asked for nothing but what was handed to the pool, or is left of an earlier
      journal. -/
  asked : ∀ a d choice, g.asked? a = some (d, choice) →
    d ∈ start.strays ∨ ∃ e', (e', d) ∈ start.handings acts
  /-- A pass at `deleting` has had all of its mutations applied at its time, but for those of tables
      truncated then or later. -/
  delivered : ∀ p e' dropped, g.pass = some p → p.phase = .deleting e' dropped → e'.id = e.id →
    ∃ settled, Attempted start acts e g.attempts ms settled ∧ ms.Perm settled

variable {settings : Settings} {registry : Registry} {store : Store} {path : W.State}
  {strays : List Delivery} {earlier later : List (Act W)} {g₁ g₂ : Journal W}

/-- **A batch that was submitted** under an id that was not used before, and is not used again, is
    honoured: `Honours` holds after every run. -/
theorem honours_of_run (hsound : store.Sound)
    (hbefore : (opened settings registry store path strays : Journal W).run earlier = some g)
    (hfresh : id ∉ (opened settings registry store path strays : Journal W).seen earlier)
    (hsubmit : g.submit id ms written failure = (.ok e, g₁)) (hid : e.id = id)
    (hdecode : registry.decode e.version e.payload = .ok ms)
    (hother : ∀ a ∈ later, a.written? ≠ some id) (hafter : g₁.run later = some g₂) :
    Honours (opened settings registry store path strays)
      (earlier ++ .client (.submit id ms written failure) :: later) g₂ e ms := by
  have hstep : g.step (.client (.submit id ms written failure)) = some g₁ := by
    simp only [step, clientStep, hsubmit]
  have hupto := run_concat.2 ⟨g, hbefore, hstep⟩
  have hrun : (opened settings registry store path strays : Journal W).run
      (earlier ++ .client (.submit id ms written failure) :: later) = some g₂ := by
    rw [List.append_cons, run_append, hupto]
    exact hafter
  -- Up to the submission nothing stands under the id, and from then on only the entry.
  obtain ⟨hnone, hunwritten⟩ := not_mem_seen_iff.1 hfresh
  have hempty : (opened settings registry store path strays : Journal W).Under id fun _ => False :=
    under_of_not_stored hsound rfl hnone
  obtain ⟨hunder₁, -⟩ := under_of_submit (hempty.run hunwritten hbefore) hsubmit
  have hunder := hunder₁.run hother hafter
  have hregistry : g₂.registry = registry := registry_of_run hrun
  have hread {m : Mutation} {g' : Journal W} (hm : g'.Belongs m e) (hg' : g'.registry = registry) :
      m ∈ ms := by
    obtain ⟨ms', hms', hmem⟩ := hm
    rw [hg', hdecode] at hms'
    exact Except.ok.inj hms' ▸ hmem
  subst hid
  refine
    { stored := hunder.stored
      decoded := by rw [hregistry, hdecode]
      readable := fun act g' e' hact hheld hid => ?_
      handed := fun e' d hmem hid => ?_
      asked := fun a d choice hasked => ?_
      delivered := fun p e' dropped hpass hphase hid => ?_ }
  · refine decodeFailures_of_passStep hact fun e'' he'' => ⟨ms, ?_⟩
    obtain rfl := Option.some.inj (hheld.symm.trans he'')
    rw [hunder.held e' hheld hid, hregistry, hdecode]
  · -- The submission itself hands out nothing, so it was before or after.
    rw [handings, List.append_cons, along_append hupto, along_concat hbefore] at hmem
    simp only [handed?, Option.toList_none, List.append_nil, List.mem_append] at hmem
    rcases hmem with hearlier | hlater
    · -- A pass had nothing in hand under the id before.
      have hnothing : (opened settings registry store path strays : Journal W).Decoded :=
        fun p hp => by simp [opened] at hp
      exact (handings_of_under hempty hnothing hunwritten hearlier hid).1.elim
    · obtain ⟨rfl, hwritten, hbelongs⟩ := handings_of_under hunder₁
        (decoded_of_run rfl hupto) hother hlater hid
      exact ⟨rfl, hread hbelongs (registry_of_run hupto), hwritten⟩
  · rcases handed_of_mem_deliveries hrun (mem_deliveries_of_asked? hasked) with hstart | hhanded
    · left
      simpa [deliveries, opened, Pool.jobs_start] using hstart
    · exact .inr hhanded
  · -- The account of the attempt is in order, and its batch is the one that was submitted.
    have hheld : g₂.inHand? = some e' := by simp [inHand?, hpass, hphase, Phase.held?]
    obtain rfl := hunder.held e' hheld hid
    have howes := (tracked_of_run rfl (fun q => Pool.tally_start _ _) hrun).inHand p hpass
    rw [hphase] at howes
    obtain ⟨ms', settled, hattempted, haccount⟩ := howes
    have hms : ms' = ms := by
      obtain ⟨-, -, -, -, -, -, -, -, -, hdecode', -⟩ := hattempted
      exact Except.ok.inj (hdecode'.symm.trans hdecode)
    subst hms
    exact ⟨settled, hattempted, haccount.perm⟩

/-- **What is replayed is what was submitted.** A journal with a log and the standard formats runs
    in any way up to a submission.  If that fails, the entries and the totals are as before; they
    are also if any file operation fails under it.  If it succeeds, the entry has the time of the
    batch and the current version; and under an id that was not used before and is not used again
    the journal honours the batch whatever happens next, restarts and the end of its process at any
    point included, and has its entry as long as nobody takes it out. -/
theorem honours_of_submit {settings : Settings} {store : Store} {path : W.State}
    {strays : List Delivery} {found : Disk} {left : Medium} {directory : String}
    {options : StoreOptions} {warnings : List Warning}
    (hopen : (Medium.disk found).openWith directory options = (.ok (store, warnings), left))
    {earlier : List (Act W)} {g : Journal W}
    (hbefore : (opened settings .standard store path strays : Journal W).run earlier = some g)
    (id : BatchId) (ms : List Mutation) (written : Timestamp) (failure : Option StoreError) :
    (∀ l d e script err l' d', g.store = .logged l d
        → (l.put e).runWith script d = ((.error err, l'), d') → l'.entries = l.entries)
      ∧ match g.submit id ms written failure with
        | (.error _, g₁) => g₁.entries = g.entries ∧ g₁.counters = g.counters
        | (.ok e, g₁) =>
          e = ⟨id, written, Registry.standard.current, e.payload⟩
            ∧ (id ∉ (opened settings .standard store path strays : Journal W).seen earlier →
              ∀ later g₂, g₁.run later = some g₂ → (∀ a ∈ later, a.written? ≠ some id) →
                Honours (opened settings .standard store path strays)
                    (earlier ++ .client (.submit id ms written failure) :: later) g₂ e ms
                  ∧ (.delete id ∉ g₁.along doing? later → g₂.entries.get? id = some e)) := by
  have hstart : store.Sound := Store.sound_of_openWith hopen
  have hsound : g.store.Sound := sound_of_run hstart hbefore
  have hregistry : g.registry = .standard := registry_of_run hbefore
  -- A refused put leaves the index alone whatever the disk does, which is the first half.
  refine ⟨fun l d e script err l' d' hstore hput => ?_, ?_⟩
  · rw [hstore] at hsound
    obtain ⟨rs, hstep⟩ := hsound
    have happended := (LogStore.append_survives hstep (.put e)).runWith script
    rw [LogStore.put] at hput
    rw [hput] at happended
    rw [LogStore.entries, happended.index_eq hstep, LogStore.entries]
  · split
    · rename_i err g₁ hsubmit
      obtain ⟨-, ⟨e, hok, -⟩ | ⟨err', -, hentries, hcounters⟩⟩ :=
        submit_cases hsound id ms written failure
      · rw [hsubmit] at hok
        simp at hok
      · rw [hsubmit] at hentries hcounters
        exact ⟨hentries, hcounters⟩
    · rename_i e g₁ hsubmit
      have hopened : (opened settings .standard store path strays : Journal W).OnDisk :=
        logged_of_openWith hopen
      obtain ⟨he, hdecode⟩ := decode_of_submit hsound (hopened.run hbefore) hregistry hsubmit
      have hid : e.id = id := by rw [he]
      refine ⟨he, fun hfresh later g₂ hafter hother => ⟨?_, fun hkept => ?_⟩⟩
      · exact honours_of_run hstart hbefore hfresh hsubmit hid hdecode hother hafter
      · -- Nothing was stored under the id before, so the submit is the first to hold it.
        obtain ⟨hnone, hunwritten⟩ := not_mem_seen_iff.1 hfresh
        have hempty : g.Under id fun _ => False :=
          (under_of_not_stored hstart rfl hnone).run hunwritten hbefore
        obtain ⟨hunder₁, hget₁⟩ := under_of_submit hempty hsubmit
        exact stored_of_run hunder₁.sound hget₁ hother hkept hafter

/-- A batch is submitted on a new disk, and is there after a compaction and the death of the
    process. -/
theorem honours_of_submit_restarted :
    let options : StoreOptions := ⟨.always, .zero, 1, default⟩
    let start : Journal replicaPath :=
      opened Settings.standard .standard
        (.logged (.opened "batches/batchlog.log" options .empty Header.length)
          ⟨.present, some Header.current.encode, .free, none⟩) Replica.empty []
    let m : Mutation := ⟨⟨"ks", "t"⟩, [1], [.upsert "r" "c" [7], .deletePartition]⟩
    let later : List (Act replicaPath) := [.client (.compact none), .restart "batches" .died]
    ∃ e g₁ g₂, start.submit default [m] ⟨5⟩ none = (.ok e, g₁) ∧ g₁.run later = some g₂
      ∧ Honours start (.client (.submit default [m] ⟨5⟩ none) :: later) g₂ e [m]
      ∧ g₂.entries.get? default = some e := by
  intro options start m later
  have hopen : (Medium.disk .fresh).openWith "batches" options = (.ok (start.store, []), _) := rfl
  have hbefore : start.run [] = some start := rfl
  obtain ⟨-, hsubmitted⟩ := honours_of_submit hopen hbefore default [m] ⟨5⟩ none
  -- The three facts left to evaluate: the submit succeeds, the rest runs, nothing is deleted.
  have hok : (start.submit default [m] ⟨5⟩ none).1.isOk = true := by decide +kernel
  have hruns : ((start.submit default [m] ⟨5⟩ none).2.run later).isSome = true := by
    decide +kernel
  have hquiet : ((start.submit default [m] ⟨5⟩ none).2.along doing? later).length = 0 := by
    decide +kernel
  rcases hsubmit : start.submit default [m] ⟨5⟩ none with ⟨err | e, g₁⟩
  · rw [hsubmit] at hok
    exact absurd hok Bool.false_ne_true
  · rw [hsubmit] at hruns hquiet
    obtain ⟨g₂, hafter⟩ := Option.isSome_iff_exists.1 hruns
    rw [hsubmit] at hsubmitted
    obtain ⟨-, hhonours⟩ := hsubmitted
    obtain ⟨hhonours, hkept⟩ := hhonours (by decide +kernel) later g₂ hafter
      (by simp [later, Act.written?])
    refine ⟨e, g₁, g₂, rfl, hafter, hhonours, hkept ?_⟩
    rw [List.eq_nil_of_length_eq_zero hquiet]
    exact List.not_mem_nil

end Journal

end BatchJournal
