import BatchJournal.Proofs.Replay.Books

namespace BatchJournal

/-!
# The trail of a pass

A pass that was asked to stop does so in one of two places: with an entry in hand that it has not
looked at, and when it wakes from a sleep.  Up to there it leaves a trail: the entries that it looks
at, with the clock, and what becomes of each.  Others may use the store meanwhile; under the ids
that they leave alone the trail tells what is stored.

* `Journal.stops` — where the pass stops.
* `Journal.look?`, `Journal.outcome?`, `Journal.interrupted?` — what is written down.
* `Journal.StandsFor` — entries that were found under the ids of stored ones.
* `Journal.Trail` — what is written down agrees with the scan, the report and the store.
* `Journal.Trail.step` — every act keeps the trail, until the pass breaks down.
-/

namespace Verdict

/-- The outcome of an attempt, not a verdict at the first look. -/
def ofAttempt : Verdict → Bool
  | .failed | .undeleted | .replayed => true
  | .tooYoung | .undecodable => false

end Verdict

/-- How many entries a report counts with the given verdict. -/
def Report.tally (r : Report) : Verdict → Nat
  | .tooYoung => r.notYetEligible
  | .undecodable => r.decodeFailures
  | .failed => r.applyFailures
  | .undeleted => r.deleteFailures
  | .replayed => r.replayed

/-- `note` counts the entry with its own outcome and with no other. -/
theorem Report.tally_note (r : Report) (e : Entry) (n : Nat) (verdict v : Verdict) :
    (r.note e n verdict).tally v = r.tally v + if verdict = v then 1 else 0 := by
  cases verdict <;> cases v <;> rfl

/-- `note` counts the entry as scanned, whatever its outcome. -/
theorem Report.scanned_note (r : Report) (e : Entry) (n : Nat) (verdict : Verdict) :
    (r.note e n verdict).scanned = r.scanned + 1 := by
  cases verdict <;> rfl

namespace Phase

/-- The entry in hand that the pass has not looked at: at `fetched`. -/
def unread? : Phase → Option Entry
  | .fetched e => some e
  | _ => none

/-- The pass is over, with a report or broken down. -/
def isFinished : Phase → Bool
  | .finished _ => true
  | _ => false

/-- The pass broke down. -/
def isBroken : Phase → Bool
  | .finished (.error _) => true
  | _ => false

/-- A phase with an `accepted?` entry is neither `finished` nor `fetched`. -/
theorem going_of_accepted? {phase : Phase} {e : Entry} (h : phase.accepted? = some e) :
    phase.isFinished = false ∧ phase.unread? = none := by
  cases phase <;> first | exact ⟨rfl, rfl⟩ | simp [accepted?] at h

end Phase

/-- The act leaves alone what stands under `id`, unless it is one of the pass; and it does not end
    the process. -/
def Act.keepsOff {W : WritePath} (id : BatchId) : Act W → Bool
  | .client (.submit id' _ _ _) | .client (.remove id' _) => id' ≠ id
  | .client (.put e _) => e.id ≠ id
  | .restart _ _ => false
  | _ => true

namespace Journal

variable {W : WritePath} {start g g' : Journal W} {p p' : Pass} {a : Act W} {acts : List (Act W)}
  {own : BatchId → Bool} {looks : List Reading} {visits : List Visit} {halts : List Entry}
  {e : Entry}

/-! ### What is written down -/

/-- **The pass stops here:** `stopRequested`, and it sees that at `consider` and `wake`. -/
def stops (g : Journal W) : Act W → Bool
  | .pass (.consider _) | .pass .wake => g.pass.any g.stopRequested
  | _ => false

/-- **The pass looks at an entry,** and at the clock for it: a `reading?` where it does not stop. -/
def look? (g : Journal W) (a : Act W) : Option Reading := if g.stops a then none else g.reading? a

/-- **The pass is done with an entry** that it has looked at: a `visit?` where it does not stop. -/
def outcome? (g : Journal W) (a : Act W) : Option Visit := if g.stops a then none else g.visit? a

/-- **The pass is interrupted** at `wake`, from a sleep for the entry in hand. -/
def interrupted? (g : Journal W) : Act W → Option Entry
  | .pass .wake => if g.stops (.pass .wake) then g.inHand? else none
  | _ => none

/-- **A pass that stops** comes to `finish p true`, from `fetched` or from `resting`. -/
theorem stopped_of_step {act : PassAct} (hpass : g.pass = some p)
    (hstops : g.stops (.pass act) = true) (hstep : g.step (.pass act) = some g') :
    g' = g.finish p true ∧ ((∃ e now, act = .consider now ∧ p.phase = .fetched e)
      ∨ ∃ e ms, act = .wake ∧ p.phase = .resting e ms) := by
  -- Only `consider` and `wake` look at the flag, each in the one phase it applies to.
  have hstop : g.stopRequested p = true := by
    cases act with
    | consider | wake =>
      rw [stops, hpass] at hstops
      exact hstops
    | _ => simp [stops] at hstops
  cases act with
  | consider now =>
    simp only [step, hpass, Option.bind_some, passStep] at hstep
    split at hstep
    · rename_i e hphase
      refine ⟨?_, .inl ⟨e, now, rfl, hphase⟩⟩
      rw [← Option.some.inj hstep, consider, if_pos hstop]
    · simp at hstep
  | wake =>
    simp only [step, hpass, Option.bind_some, passStep] at hstep
    split at hstep
    · rename_i e ms hphase
      refine ⟨?_, .inr ⟨e, ms, rfl, hphase⟩⟩
      rw [← Option.some.inj hstep, if_pos hstop]
    · simp at hstep
  | _ => simp [stops] at hstops

/-- **What an act is to a pass under way:** the pass stops, it makes a `PassMove`, or somebody else
    acts. -/
theorem act_cases (hpass : g.pass = some p) (hstays : a.restarts = false ∧ a ≠ .pass .retire)
    (hstep : g.step a = some g') :
    (∃ act, a = .pass act ∧ g.stops (.pass act) = true)
      ∨ (∃ act, a = .pass act ∧ act ≠ .retire ∧ g.stops (.pass act) = false
        ∧ g.PassMove p act g')
      ∨ ∀ act, a ≠ .pass act := by
  -- An act of the pass stops it or is a move, a pass being under way.
  by_cases hact : ∃ act, a = .pass act
  · obtain ⟨act, rfl⟩ := hact
    have hstay : act ≠ .retire := fun hretire => hstays.2 (by rw [hretire])
    cases hstops : g.stops (.pass act) with
    | true => exact .inl ⟨act, rfl, hstops⟩
    | false =>
      exact .inr (.inl ⟨act, rfl, hstay, hstops, passMove_of_step hpass hstep⟩)
  · exact .inr (.inr fun act heq => hact ⟨act, heq⟩)

/-- **The pass under way** is as `told`, unless it broke down. -/
inductive Passing (g : Journal W) (told : Pass → Prop) : Prop where
  /-- It broke down. -/
  | broken {p : Pass} (hpass : g.pass = some p) (hbroken : p.phase.isBroken = true)
  /-- It is as told. -/
  | sound {p : Pass} (hpass : g.pass = some p) (htold : told p)

theorem Passing.and {told told' : Pass → Prop} (h : g.Passing told) (h' : g.Passing told') :
    g.Passing fun p => told p ∧ told' p := by
  cases h with
  | broken hpass hbroken => exact .broken hpass hbroken
  | sound hpass htold =>
    cases h' with
    | broken hpass' hbroken => exact .broken hpass' hbroken
    | sound hpass' htold' =>
      obtain rfl := Option.some.inj (hpass.symm.trans hpass')
      exact .sound hpass ⟨htold, htold'⟩

/-! ### Entries found and entries stored -/

/-- **What is `found` stands for what was `stored`:** under some of the ids, in the same order, and
    just the same entries under the ids of `own`. -/
structure StandsFor (own : BatchId → Bool) (found stored : List Entry) : Prop where
  /-- The ids are among those that were stored. -/
  ids : (found.map Entry.id).Sublist (stored.map Entry.id)
  /-- Under the ids of `own` there are the same entries. -/
  same : found.filter (fun e => own e.id) = stored.filter fun e => own e.id

theorem StandsFor.append {found found' stored stored' : List Entry} (h : StandsFor own found stored)
    (h' : StandsFor own found' stored') : StandsFor own (found ++ found') (stored ++ stored') :=
  ⟨by simpa only [List.map_append] using h.ids.append h'.ids,
    by rw [List.filter_append, List.filter_append, h.same, h'.same]⟩

theorem StandsFor.nil : StandsFor own [] [] := ⟨.slnil, rfl⟩

/-- Nothing has to be found under an id that is not of `own`. -/
theorem StandsFor.missing (h : own e.id = false) : StandsFor own [] [e] :=
  ⟨List.nil_sublist _, by simp [h]⟩

/-- One entry is found under the id of another, and under an id of `own` it is that one itself. -/
theorem StandsFor.single {found : Entry} (hid : found.id = e.id)
    (hsame : own e.id = true → found = e) : StandsFor own [found] [e] := by
  refine ⟨by rw [List.map_singleton, List.map_singleton, hid], ?_⟩
  cases hown : own e.id with
  | true => rw [hsame hown]
  | false => simp [hid, hown]

/-! ### The trail -/

/-- **The trail of a pass** over what `start` stored: `looks`, `visits` and `halts` agree with what
    the pass `p` of `g` has done so far. -/
structure Trail (own : BatchId → Bool) (start : Journal W) (looks : List Reading)
    (visits : List Visit) (halts : List Entry) (g : Journal W) (p : Pass) : Prop where
  /-- The store is sound. -/
  sound : g.store.Sound
  /-- The settings and the formats are those of `start`. -/
  same : g.settings = start.settings ∧ g.registry = start.registry
  /-- What `start` stored is looked at, or next, or still to come. -/
  order : ∃ done next later, start.entries.toList = done ++ next ++ later
    ∧ StandsFor own (looks.map Reading.entry) done
    ∧ (p.phase.isFinished = false →
      StandsFor own p.phase.unread?.toList next ∧ p.scan.ids = later.map Entry.id)
  /-- What was looked at is done with, or is `accepted?`, or the pass was interrupted for it. -/
  judged : ∃ earlier latest, looks = earlier ++ latest ∧ List.Forall₂ start.Judged earlier visits
    ∧ List.Forall₂ start.Accepts latest (p.phase.accepted?.toList ++ halts)
  /-- Only a pass that was cancelled has `halts`, and one at most. -/
  halted : halts = [] ∨ (∃ e, halts = [e]) ∧ ∃ r, p.phase = .finished (.ok r) ∧ r.cancelled = true
  /-- The report counts the outcomes: `tally`. -/
  counted : ∀ verdict, p.report.tally verdict = visits.countP fun v => v.verdict = verdict
  /-- It counts as scanned what was looked at. -/
  scanned : p.report.scanned = looks.length
  /-- Under the ids of `own` just the replayed entries are gone. -/
  stored : ∀ id, own id = true →
    g.entries.get? id = (start.entries.minus (replayedEntries visits)).get? id
  /-- In the end the report is given, and everything was looked at unless the pass was cancelled. -/
  ended : ∀ r, p.phase = .finished (.ok r) → p.report = r
    ∧ (r.cancelled = false → StandsFor own (looks.map Reading.entry) start.entries.toList)

theorem map_entry_of_judged {rs : List Reading} {vs : List Visit}
    (h : List.Forall₂ start.Judged rs vs) : rs.map Reading.entry = vs.map Visit.entry := by
  induction h with
  | nil => rfl
  | cons hjudged _ ih =>
    rw [List.map_cons, List.map_cons, ih]
    congr 1
    cases hjudged with
    | tooYoung | undecodable => rfl
    | attempted haccepts => exact haccepts.entry

theorem map_entry_of_accepts {rs : List Reading} {es : List Entry}
    (h : List.Forall₂ start.Accepts rs es) : rs.map Reading.entry = es := by
  induction h with
  | nil => rfl
  | cons haccepts _ ih => rw [List.map_cons, ih, haccepts.entry]

/-- Before its end a pass has no `halts`. -/
theorem Trail.halts_eq (h : Trail own start looks visits halts g p)
    (hphase : p.phase.isFinished = false) : halts = [] := by
  rcases h.halted with hnone | ⟨-, r, hfinished, -⟩
  · exact hnone
  · simp [hfinished, Phase.isFinished] at hphase

/-- **What was looked at** are the entries of `visits`, and then the one that is `accepted?` or in
    `halts`. -/
theorem Trail.entries_eq (h : Trail own start looks visits halts g p) :
    looks.map Reading.entry
      = visits.map Visit.entry ++ (p.phase.accepted?.toList ++ halts) := by
  obtain ⟨earlier, latest, rfl, hearlier, hlatest⟩ := h.judged
  rw [List.map_append, map_entry_of_judged hearlier, map_entry_of_accepts hlatest]

/-- No id is looked at twice. -/
theorem Trail.nodup (h : Trail own start looks visits halts g p) :
    ((looks.map Reading.entry).map Entry.id).Nodup := by
  obtain ⟨done, next, later, horder, hstands, -⟩ := h.order
  have hdistinct := start.entries.nodup_ids
  rw [horder, List.append_assoc, List.map_append] at hdistinct
  exact (List.nodup_append.1 hdistinct).1.sublist hstands.ids

/-- The `accepted?` entry is not one that the pass is done with. -/
theorem Trail.fresh (h : Trail own start looks visits halts g p)
    (haccepted : p.phase.accepted? = some e) : e ∉ visits.map Visit.entry := by
  intro hmem
  have hdistinct := h.nodup
  rw [h.entries_eq, haccepted, List.map_append] at hdistinct
  refine (List.nodup_append.1 hdistinct).2.2 _ (List.mem_map_of_mem hmem) e.id ?_ rfl
  simp

/-- What is in `replayedEntries` was looked at. -/
theorem Trail.mem_looks (h : Trail own start looks visits halts g p)
    (hmem : e ∈ replayedEntries visits) : e ∈ looks.map Reading.entry := by
  rw [h.entries_eq]
  exact List.mem_append_left _ (mem_of_mem_replayedEntries hmem)

/-- **Others may act** as they like on ids that are not of `own`. -/
theorem Trail.keep (h : Trail own start looks visits halts g p) (hsound : g'.store.Sound)
    (hentries : ∀ id, own id = true → g'.entries.get? id = g.entries.get? id)
    (hsame : g'.settings = g.settings ∧ g'.registry = g.registry) :
    Trail own start looks visits halts g' p :=
  { h with
    sound := hsound
    same := ⟨hsame.1.trans h.same.1, hsame.2.trans h.same.2⟩
    stored := fun id hown => (hentries id hown).trans (h.stored id hown) }

/-- **A move within an attempt** keeps `Trail`. -/
theorem Trail.onward (h : Trail own start looks visits halts g p)
    (hsame : g'.store = g.store ∧ g'.settings = g.settings ∧ g'.registry = g.registry)
    (hpass : p'.scan = p.scan ∧ p'.report = p.report) (hbefore : p.phase.accepted? = some e)
    (hafter : p'.phase.accepted? = some e) : Trail own start looks visits halts g' p' := by
  obtain ⟨hstore, hsettings, hregistry⟩ := hsame
  obtain ⟨hscan, hreport⟩ := hpass
  -- The phase before and the phase after hold the same accepted entry, so neither is ahead or
  -- finished.
  obtain ⟨hgoing, hread⟩ := Phase.going_of_accepted? hbefore
  obtain ⟨hgoing', hread'⟩ := Phase.going_of_accepted? hafter
  exact
    { sound := by rw [hstore]; exact h.sound
      same := ⟨hsettings.trans h.same.1, hregistry.trans h.same.2⟩
      order := by
        obtain ⟨done, next, later, horder, hstands, hahead⟩ := h.order
        refine ⟨done, next, later, horder, hstands, fun _ => ?_⟩
        rw [hread', ← hread, hscan]
        exact hahead hgoing
      judged := by rw [hafter, ← hbefore]; exact h.judged
      halted := .inl (h.halts_eq hgoing)
      counted := by rw [hreport]; exact h.counted
      scanned := by rw [hreport]; exact h.scanned
      stored := by rw [entries, hstore]; exact h.stored
      ended := fun r hfinished => by simp [hfinished, Phase.isFinished] at hgoing' }

/-- **A visit ends** with `verdict`, which the report counts; the store is the same unless the entry
    was `replayed`. -/
theorem Trail.settle {verdict : Verdict} {looks' : List Reading} {next : List Entry}
    (h : Trail own start looks visits halts g p)
    (hsound : g'.store.Sound) (hsame : g'.settings = g.settings ∧ g'.registry = g.registry)
    (hpass : p.phase.isFinished = false ∧ p'.scan = p.scan ∧ p'.phase = .between)
    (hstored : g'.entries = g.entries.minus (if verdict = .replayed then [e] else []))
    (hcounted : ∀ v, p'.report.tally v = p.report.tally v + if verdict = v then 1 else 0)
    (hlooks : looks'.map Reading.entry = looks.map Reading.entry ++ next)
    (hnext : next = p.phase.unread?.toList) (hscanned : p'.report.scanned = looks'.length)
    (hjudged : List.Forall₂ start.Judged looks' (visits ++ [⟨e, verdict⟩])) :
    Trail own start looks' (visits ++ [⟨e, verdict⟩]) halts g' p' := by
  obtain ⟨hgoing, hscan, hphase⟩ := hpass
  obtain rfl := h.halts_eq hgoing
  -- The entry's verdict closes its place: what was unread is done, the rest stays ahead.
  refine ⟨hsound, ⟨hsame.1.trans h.same.1, hsame.2.trans h.same.2⟩, ?_, ?_, .inl rfl, ?_, hscanned,
    ?_, ?_⟩
  · obtain ⟨done, unread, later, horder, hstands, hahead⟩ := h.order
    obtain ⟨hunread, hids⟩ := hahead hgoing
    refine ⟨done ++ unread, [], later, by rw [List.append_nil, horder], ?_, fun _ => ?_⟩
    · rw [hlooks, hnext]
      exact hstands.append hunread
    · rw [hphase, hscan]
      exact ⟨.nil, hids⟩
  · rw [hphase]
    exact ⟨looks', [], (List.append_nil _).symm, hjudged, .nil⟩
  · intro v
    rw [hcounted, h.counted, List.countP_append, List.countP_singleton]
    simp only [decide_eq_true_eq]
  · -- Under an id of our own only the deletion of a replayed entry changes the store.
    intro id hown
    rw [replayedEntries_concat, Entries.minus_append, hstored, Entries.get?_minus,
      Entries.get?_minus, h.stored id hown]
  · intro r hfinished
    simp [hphase] at hfinished

/-- Where no entry is `accepted?` the pass is done with all that it has looked at. -/
theorem Trail.judged_eq (h : Trail own start looks visits halts g p)
    (hgoing : p.phase.isFinished = false) (hnone : p.phase.accepted? = none) :
    List.Forall₂ start.Judged looks visits := by
  obtain ⟨earlier, latest, rfl, hearlier, hlatest⟩ := h.judged
  rw [hnone, h.halts_eq hgoing] at hlatest
  cases hlatest
  rwa [List.append_nil]

/-- **A verdict at the first look:** `tooYoung` or `undecodable`. -/
theorem Trail.dismiss {verdict : Verdict} {now : Timestamp}
    (h : Trail own start looks visits halts g p) (hphase : p.phase = .fetched e)
    (hsame : g'.store = g.store ∧ g'.settings = g.settings ∧ g'.registry = g.registry)
    (hpass : p'.scan = p.scan ∧ p'.phase = .between)
    (hreport : p'.report = p.report.note e 0 verdict) (hkept : verdict ≠ .replayed)
    (hjudged : start.Judged ⟨e, now⟩ ⟨e, verdict⟩) :
    Trail own start (looks ++ [⟨e, now⟩]) (visits ++ [⟨e, verdict⟩]) halts g' p' := by
  have hgoing : p.phase.isFinished = false := by rw [hphase]; rfl
  refine h.settle (by rw [hsame.1]; exact h.sound) hsame.2 ⟨hgoing, hpass⟩ ?_
    (fun v => by rw [hreport, Report.tally_note]) (List.map_append ..) (by rw [hphase]; rfl) ?_ ?_
  · rw [if_neg hkept, entries, hsame.1]
    rfl
  · rw [hreport, Report.scanned_note, h.scanned, List.length_append]
    rfl
  · exact List.rel_append (h.judged_eq hgoing (by rw [hphase]; rfl)) (.cons hjudged .nil)

/-- **The outcome of an attempt:** one of the three other verdicts. -/
theorem Trail.conclude {verdict : Verdict} {n : Nat} (h : Trail own start looks visits halts g p)
    (haccepted : p.phase.accepted? = some e) (hsound : g'.store.Sound)
    (hsame : g'.settings = g.settings ∧ g'.registry = g.registry)
    (hpass : p'.scan = p.scan ∧ p'.phase = .between)
    (hstored : g'.entries = g.entries.minus (if verdict = .replayed then [e] else []))
    (hreport : p'.report = { p.report.note e n verdict with scanned := p.report.scanned })
    (hverdict : verdict ≠ .tooYoung ∧ verdict ≠ .undecodable) :
    Trail own start looks (visits ++ [⟨e, verdict⟩]) halts g' p' := by
  obtain ⟨hgoing, hread⟩ := Phase.going_of_accepted? haccepted
  have hcounted : ∀ v, p'.report.tally v = p.report.tally v + if verdict = v then 1 else 0 := by
    intro v
    rw [hreport, ← p.report.tally_note e n verdict v]
    cases v <;> rfl
  refine h.settle hsound hsame ⟨hgoing, hpass⟩ hstored hcounted (List.append_nil _).symm
    (by rw [hread]; rfl) (by rw [hreport]; exact h.scanned) ?_
  -- The entry was the one look without a verdict, and now has one.
  obtain ⟨earlier, latest, rfl, hearlier, hlatest⟩ := h.judged
  rw [haccepted, h.halts_eq hgoing] at hlatest
  refine List.rel_append hearlier ?_
  cases hlatest with
  | cons haccepts hnil =>
    cases hnil
    exact .cons (.attempted haccepts hverdict.1 hverdict.2) .nil

/-- **An entry is accepted:** it counts as `scanned`. -/
theorem Trail.accept {phase : Phase} {now : Timestamp} {ms : List Mutation}
    (h : Trail own start looks visits halts g p) (hphase : p.phase = .fetched e)
    (hage : e.eligible now g.settings.replayAge = true)
    (hdecode : g.registry.decode e.version e.payload = .ok ms)
    (hnext : phase = .pacing e ms ∨ phase = .sorting e ms [] 0) :
    Trail own start (looks ++ [⟨e, now⟩]) visits halts
      (g.passAt { p with report := { p.report with scanned := p.report.scanned + 1 } } phase)
      { p with report := { p.report with scanned := p.report.scanned + 1 }, phase } := by
  have hgoing : p.phase.isFinished = false := by rw [hphase]; rfl
  have hplace : phase.accepted? = some e ∧ phase.unread? = none ∧ phase.isFinished = false := by
    rcases hnext with rfl | rfl <;> exact ⟨rfl, rfl, rfl⟩
  obtain ⟨haccepted, hunread, hgoing'⟩ := hplace
  obtain rfl := h.halts_eq hgoing
  -- The look becomes the latest and waits for its verdict.
  refine ⟨h.sound, h.same, ?_, ?_, .inl rfl, h.counted, ?_, h.stored, ?_⟩
  · obtain ⟨done, unread, later, horder, hstands, hahead⟩ := h.order
    obtain ⟨hread, hids⟩ := hahead hgoing
    rw [hphase] at hread
    refine ⟨done ++ unread, [], later, by rw [List.append_nil, horder], ?_, fun _ => ?_⟩
    · rw [List.map_append]
      exact hstands.append hread
    · rw [hunread]
      exact ⟨.nil, hids⟩
  · refine ⟨looks, [⟨e, now⟩], rfl, h.judged_eq hgoing (by rw [hphase]; rfl), ?_⟩
    rw [haccepted]
    exact .cons ⟨rfl, h.same.1 ▸ hage, ms, h.same.2 ▸ hdecode⟩ .nil
  · show p.report.scanned + 1 = _
    rw [h.scanned, List.length_append]
    rfl
  · intro r hfinished
    have hphase' : phase = .finished (.ok r) := hfinished
    simp [hphase', Phase.isFinished] at hgoing'

/-- **The next id.**  What the scan finds there is an entry to be looked at, or it is gone; under an
    id of `own` it is the entry that was stored. -/
theorem Trail.next (h : Trail own start looks visits halts g p) (hphase : p.phase = .between)
    {found : Option Entry} {scan : Scan} (hscan : p.scan.visit g.entries = some (found, scan))
    {phase : Phase} (hplace : phase.unread? = found ∧ phase.accepted? = none)
    (hgoing' : phase.isFinished = false) :
    Trail own start looks visits halts (g.passAt { p with scan } phase) { p with scan, phase } := by
  have hgoing : p.phase.isFinished = false := by rw [hphase]; rfl
  obtain rfl := h.halts_eq hgoing
  obtain ⟨done, next, later, horder, hstands, hahead⟩ := h.order
  obtain ⟨hread, hids⟩ := hahead hgoing
  rw [hphase] at hread
  change StandsFor own [] next at hread
  obtain ⟨e, later, rfl, hlater, hfound⟩ := exists_head_of_visit hscan hids
  have hmem : e ∈ start.entries.toList := by
    rw [horder]
    exact List.mem_append_right _ List.mem_cons_self
  -- No entry of this id was looked at, so none was replayed.
  have hnew : e.id ∉ (replayedEntries visits).map Entry.id := by
    intro hgone
    obtain ⟨e', he', hid⟩ := List.mem_map.1 hgone
    have hdone : e'.id ∈ done.map Entry.id :=
      hstands.ids.subset (List.mem_map_of_mem (h.mem_looks he'))
    refine Entries.id_not_mem horder List.mem_cons_self ?_
    rw [List.map_append]
    exact List.mem_append_left _ (hid ▸ hdone)
  have hstored : own e.id = true → found = some e := by
    intro hown
    rw [← hfound, h.stored _ hown, Entries.get?_minus, if_neg hnew]
    exact Entries.mem_toList_iff.1 hmem
  refine { h with order := ?_, judged := ?_, halted := .inl rfl, ended := ?_ }
  · refine ⟨done ++ next, [e], later, by rw [horder, List.append_cons], ?_, fun _ => ?_⟩
    · simpa only [List.append_nil] using hstands.append hread
    · refine ⟨?_, hlater⟩
      show StandsFor own phase.unread?.toList [e]
      rw [hplace.1]
      cases found with
      | none => exact .missing (Bool.eq_false_iff.2 fun hown => by simpa using hstored hown)
      | some e' =>
        exact .single (g.entries.keyed _ _ hfound)
          fun hown => Option.some.inj (hstored hown)
  · obtain ⟨earlier, latest, hlooks, hearlier, hlatest⟩ := h.judged
    rw [hphase] at hlatest
    refine ⟨earlier, latest, hlooks, hearlier, ?_⟩
    show List.Forall₂ start.Accepts latest (phase.accepted?.toList ++ [])
    rw [hplace.2]
    exact hlatest
  · intro r hfinished
    have hphase' : phase = .finished (.ok r) := hfinished
    simp [hphase', Phase.isFinished] at hgoing'

/-- **`finish` ends the trail:** the pass was cancelled, and interrupted if an entry was
    `accepted?`; or no id is left. -/
theorem Trail.finish (h : Trail own start looks visits halts g p) (cancelled : Bool)
    (hgoing : p.phase.isFinished = false)
    (hwhy : cancelled = true ∨ p.phase = .between ∧ p.scan.ids = []) :
    ∃ p', (g.finish p cancelled).pass = some p' ∧
      Trail own start looks visits (halts ++ p.phase.accepted?.toList)
        (g.finish p cancelled) p' := by
  obtain rfl := h.halts_eq hgoing
  obtain ⟨done, next, later, horder, hstands, hahead⟩ := h.order
  -- Ending keeps the looks and verdicts; only what remains ahead is given up.
  refine ⟨_, rfl, { h with order := ?_, judged := ?_, halted := ?_, ended := ?_ }⟩
  · exact ⟨done, next, later, horder, hstands, fun hfalse => by simp [Phase.isFinished] at hfalse⟩
  · simpa [Phase.accepted?] using h.judged
  · -- A pass stopped in the middle of an entry leaves that entry as its halt.
    rcases hwhy with rfl | ⟨hphase, -⟩
    · cases p.phase.accepted? with
      | none => exact .inl rfl
      | some e => exact .inr ⟨⟨e, rfl⟩, _, rfl, rfl⟩
    · rw [hphase]
      exact .inl rfl
  · intro r hfinished
    obtain rfl := Except.ok.inj (Phase.finished.inj hfinished)
    refine ⟨rfl, fun huncancelled => ?_⟩
    -- A pass that runs out of ids has nothing ahead, so all its entries were looked at.
    rcases hwhy with rfl | ⟨hphase, hids⟩
    · exact absurd huncancelled (by simp)
    · obtain ⟨hread, hlater⟩ := hahead hgoing
      obtain rfl := List.map_eq_nil_iff.1 (hlater.symm.trans hids)
      rw [hphase] at hread
      change StandsFor own [] next at hread
      rw [horder, List.append_nil]
      simpa only [List.append_nil] using hstands.append hread

/-! ### The trail of a run -/

/-- **A move of a pass** that does not stop keeps `Trail`, with what is seen of it, unless the pass
    breaks down: one case for each constructor of `Writes`. -/
theorem Trail.move {act : PassAct} (h : Trail own start looks visits halts g p)
    (hpass : g.pass = some p) (hmove : g.PassMove p act g') (hstay : act ≠ .retire)
    (hstops : g.stops (.pass act) = false) :
    g'.Passing (Trail own start (looks ++ (g.reading? (.pass act)).toList)
      (visits ++ (g.visit? (.pass act)).toList) halts g') := by
  -- What is seen of the move stands in the goal as it is looked up; each case knows what it is.
  have htrail : ∀ reading visit {p'}, g.reading? (.pass act) = reading →
      g.visit? (.pass act) = visit → g'.pass = some p' →
      Trail own start (looks ++ reading.toList) (visits ++ visit.toList) halts g' p' →
      g'.Passing (Trail own start (looks ++ (g.reading? (.pass act)).toList)
        (visits ++ (g.visit? (.pass act)).toList) halts g') := by
    rintro reading visit p' rfl rfl hpass' h
    exact .sound hpass' h
  cases writes_of_passMove hpass hmove hstay with
  | stopped hact hstop =>
    rcases hact with rfl | ⟨now, rfl⟩ <;> simp [stops, hpass, hstop] at hstops
  | brokeDown => exact .broken rfl rfl
  | exhausted hphase hids =>
    obtain ⟨p', hpass', hend⟩ := h.finish false (by rw [hphase]; rfl) (.inr ⟨hphase, hids⟩)
    rw [hphase] at hend
    exact htrail none none rfl rfl hpass' (by simpa [Phase.accepted?] using hend)
  | next hphase hscan hfound =>
    refine htrail none none rfl rfl rfl ?_
    rw [Option.toList_none, List.append_nil, Option.toList_none, List.append_nil]
    rcases hfound with ⟨rfl, rfl⟩ | ⟨e, rfl, rfl⟩ <;> exact h.next hphase hscan ⟨rfl, rfl⟩ rfl
  | dismissed hphase hreading hvisit hjudged hkept hsame hpass' hplace hreport =>
    exact htrail _ _ hreading hvisit hpass'
      (h.dismiss hphase hsame hplace hreport hkept (hjudged.congr h.same))
  | accepted hphase hreading hvisit hage hdecode hnext =>
    refine htrail _ none hreading hvisit rfl ?_
    rw [Option.toList_none, List.append_nil]
    exact h.accept hphase hage hdecode hnext
  | leftOut hphase hdropping =>
    refine htrail none none rfl rfl rfl ?_
    rw [Option.toList_none, List.append_nil, Option.toList_none, List.append_nil]
    exact h.onward ⟨rfl, rfl, rfl⟩ ⟨rfl, rfl⟩ (by rw [hphase]; rfl) rfl
  | onward hquiet hsame hpass' hplace hbefore hafter hleft =>
    obtain ⟨hvisit, hreading, -⟩ := hquiet
    refine htrail _ _ hreading hvisit hpass' ?_
    rw [Option.toList_none, List.append_nil, Option.toList_none, List.append_nil]
    exact h.onward hsame hplace hbefore hafter
  | concluded hquiet hvisit hverdict haccepted hleft hstore hsame hpass' hplace hreport =>
    obtain ⟨hsound, hentries⟩ := hstore h.sound
    refine htrail _ _ hquiet.1 hvisit hpass' ?_
    rw [Option.toList_none, List.append_nil]
    exact h.conclude haccepted hsound hsame hplace hentries hreport hverdict

/-- **Where the pass `stops`** the trail ends, with what is `interrupted?`. -/
theorem Trail.stop {act : PassAct} (h : Trail own start looks visits halts g p)
    (hpass : g.pass = some p) (hstops : g.stops (.pass act) = true)
    (hstep : g.step (.pass act) = some g') :
    ∃ p', g'.pass = some p'
      ∧ Trail own start looks visits (halts ++ (g.interrupted? (.pass act)).toList) g' p' := by
  obtain ⟨rfl, ⟨e, now, rfl, hphase⟩ | ⟨e, ms, rfl, hphase⟩⟩ := stopped_of_step hpass hstops hstep
  · obtain ⟨p', hpass', htrail⟩ := h.finish true (by rw [hphase]; rfl) (.inl rfl)
    rw [hphase] at htrail
    exact ⟨p', hpass', htrail⟩
  · obtain ⟨p', hpass', htrail⟩ := h.finish true (by rw [hphase]; rfl) (.inl rfl)
    refine ⟨p', hpass', ?_⟩
    have hasleep : g.interrupted? (.pass .wake) = p.phase.accepted? := by
      rw [interrupted?, if_pos hstops, inHand?, hpass, Option.bind_some, hphase]
      rfl
    rwa [hasleep]

/-- **A pass that broke down** stays so until it goes. -/
theorem isBroken_of_step (hpass : g.pass = some p) (hbroken : p.phase.isBroken = true)
    (hstays : a.restarts = false ∧ a ≠ .pass .retire) (hstep : g.step a = some g') :
    ∃ p', g'.pass = some p' ∧ p'.phase.isBroken = true := by
  rcases act_cases hpass hstays hstep with ⟨act, rfl, hstops⟩ | ⟨act, rfl, hstay, -, hmove⟩ | hother
  · obtain ⟨-, ⟨e, now, -, hphase⟩ | ⟨e, ms, -, hphase⟩⟩ := stopped_of_step hpass hstops hstep <;>
      simp [hphase, Phase.isBroken] at hbroken
  · have hfinished : ∃ result, p.phase = .finished result := by
      cases hphase : p.phase with
      | finished result => exact ⟨result, rfl⟩
      | _ => simp [hphase, Phase.isBroken] at hbroken
    obtain ⟨result, hphase⟩ := hfinished
    rcases move_of_finished hphase hmove with ⟨message, -, rfl⟩ | ⟨hretire, -⟩
    · exact ⟨_, rfl, rfl⟩
    · exact absurd hretire hstay
  · obtain ⟨hsame, -, -⟩ := same_of_step hother hstays.1 hstep
    exact ⟨p, hsame.trans hpass, hbroken⟩

/-- Who `keepsOff id` does not write there. -/
theorem written?_ne_of_keepsOff {id : BatchId} (hoff : a.keepsOff id = true) :
    a.written? ≠ some id := by
  cases a with
  | client act =>
    cases act with
    | submit | put => exact fun h => of_decide_eq_true hoff (Option.some.inj h)
    | remove | flush | compact => simp [Act.written?]
  | restart directory ending => simp [Act.keepsOff] at hoff
  | worker | pass | path | control | closePool | clearPool => simp [Act.written?]

/-- And unless it is the pass it does not delete what stands there. -/
theorem doing?_ne_of_keepsOff {id : BatchId} (hother : ∀ act, a ≠ .pass act)
    (hoff : a.keepsOff id = true) : g.doing? a ≠ some (.delete id) := by
  intro hdoing
  -- Of the client's calls only a removal can name the id, and `keepsOff` excludes that.
  cases a with
  | client act =>
    cases act with
    | remove id' failure =>
      simp only [doing?] at hdoing
      split at hdoing
      · exact of_decide_eq_true hoff (StoreOp.delete.inj (Option.some.inj hdoing))
      · simp at hdoing
    | submit | put =>
      simp only [doing?] at hdoing
      split at hdoing <;> simp at hdoing
    | flush | compact => simp [doing?] at hdoing
  | pass act => exact hother act rfl
  | restart directory ending => simp [Act.keepsOff] at hoff
  | worker | path | control | closePool | clearPool => simp [doing?] at hdoing

/-- **Who `keepsOff id`** leaves what stands under it. -/
theorem get?_of_keepsOff {id : BatchId} (hsound : g.store.Sound) (hother : ∀ act, a ≠ .pass act)
    (hoff : a.keepsOff id = true) (hstep : g.step a = some g') :
    g'.entries.get? id = g.entries.get? id := by
  have hwritten := written?_ne_of_keepsOff hoff
  refine Option.ext fun e => ⟨fun hget => ?_, fun hget =>
    stored_of_not_doing hsound hstep hget hwritten (doing?_ne_of_keepsOff hother hoff)⟩
  rcases stored_of_step hsound hstep hget with hbefore | ⟨hdoing, rfl⟩
  · exact hbefore
  · exact absurd (Act.written?_of_entry? (entry?_of_doing? hsound hdoing)) hwritten

/-- Beside the pass nothing is seen of it. -/
theorem unseen_of_other (hother : ∀ act, a ≠ .pass act) :
    g.look? a = none ∧ g.outcome? a = none ∧ g.interrupted? a = none := by
  cases a with
  | pass act => exact absurd rfl (hother act)
  | _ => exact ⟨rfl, rfl, rfl⟩

/-- **Every act keeps `Trail`,** unless the pass breaks down: of others, what `keepsOff` the ids of
    `own`; and of the pass, all but `retire`. -/
theorem Trail.step (h : Trail own start looks visits halts g p) (hpass : g.pass = some p)
    (hstays : a.restarts = false ∧ a ≠ .pass .retire)
    (hown : ∀ id, own id = true → a.keepsOff id = true) (hstep : g.step a = some g') :
    g'.Passing (Trail own start (looks ++ (g.look? a).toList) (visits ++ (g.outcome? a).toList)
      (halts ++ (g.interrupted? a).toList) g') := by
  -- The step ends the pass, moves it, or belongs to another party.
  rcases act_cases hpass hstays hstep with
    ⟨act, rfl, hstops⟩ | ⟨act, rfl, hstay, hstops, hmove⟩ | hother
  · obtain ⟨p', hpass', htrail⟩ := h.stop hpass hstops hstep
    refine .sound hpass' ?_
    rw [look?, outcome?, if_pos hstops, if_pos hstops]
    simpa only [Option.toList_none, List.append_nil] using htrail
  · have hgoes : g.interrupted? (.pass act) = none := by
      cases act with
      | wake => exact if_neg (by rw [hstops]; exact Bool.false_ne_true)
      | _ => rfl
    rw [look?, outcome?, hgoes, hstops, if_neg Bool.false_ne_true, if_neg Bool.false_ne_true]
    simpa only [Option.toList_none, List.append_nil] using h.move hpass hmove hstay hstops
  · -- The store may change, but not under the ids `own` keeps to the pass.
    obtain ⟨hsame, hsettings, hregistry⟩ := same_of_step hother hstays.1 hstep
    obtain ⟨hlook, houtcome, hgoes⟩ := unseen_of_other (g := g) hother
    refine .sound (hsame.trans hpass) ?_
    rw [hlook, houtcome, hgoes]
    simpa only [Option.toList_none, List.append_nil] using
      h.keep (effect_of_step h.sound hstep).1
        (fun id hid => get?_of_keepsOff h.sound hother (hown id hid) hstep) ⟨hsettings, hregistry⟩

/-- **`begin`** starts the trail, which is empty. -/
theorem trail_begin (own : BatchId → Bool) {ticket : Nat} (hsound : start.store.Sound)
    (hbegin : start.begin ticket = some g) :
    ∃ p, g.pass = some p ∧ Trail own start [] [] [] g p := by
  obtain ⟨-, number, throttle, rfl⟩ := begin_cases hbegin
  exact ⟨_, rfl,
    { sound := hsound
      same := ⟨rfl, rfl⟩
      order := ⟨[], [], _, rfl, .nil, fun _ => ⟨.nil, start.entries.ids_eq⟩⟩
      judged := ⟨[], [], rfl, .nil, .nil⟩
      halted := .inl rfl
      counted := fun v => by cases v <;> rfl
      scanned := rfl
      stored := fun _ _ => rfl
      ended := fun r hphase => by simp at hphase }⟩

end Journal

end BatchJournal
