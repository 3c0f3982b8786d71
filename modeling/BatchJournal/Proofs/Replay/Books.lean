import BatchJournal.Proofs.Journal.SingleFlight
import BatchJournal.Proofs.Journal.Storing
import BatchJournal.Proofs.Replay.Deletion
import BatchJournal.Proofs.Replay.Reports
import Mathlib.Data.List.Forall2

namespace BatchJournal

/-!
# The books of a pass

To check the numbers of a pass, three things are written down in a run: when the pass reads the
clock for an entry (`Journal.reading?`), when it leaves out a mutation (`Journal.dropping?`) and
when it is done with an entry (`Journal.visit?`).  At every moment these books agree with the
report as far as it was counted, and with the store as far as it was emptied.

* `Journal.Writes`, `Journal.writes_of_passMove` — what a move of the pass is to the books.
* `Journal.Books` — what is written down agrees with report and store.
* `Journal.Books.onward` — the moves within an attempt.
* `Journal.Books.settle` — the end of a visit.
* `Journal.books_of_step`, `Journal.books_of_run` — every act keeps the books, and every run.
* `Journal.Books.accounts` — what they say when the pass is over.
-/

/-! ### What is written down -/

namespace Phase

/-- The entry in hand that the pass has found old enough and decoded: `held?` from `pacing` to
    `failed`. -/
def accepted? : Phase → Option Entry
  | .between | .fetched _ | .finished _ => none
  | phase => phase.held?

/-- How many of its mutations were left out, in the phases that tell. -/
def leftOut? : Phase → Option Nat
  | .pacing _ _ | .resting _ _ => some 0
  | .sorting _ _ _ dropped | .offering _ _ _ dropped | .inserting _ _ _ _ dropped
  | .rousing _ _ _ dropped | .collecting _ _ dropped | .deleting _ dropped => some dropped
  | .between | .fetched _ | .failed _ _ | .finished _ => none

theorem held?_of_accepted? {phase : Phase} {e : Entry} (h : phase.accepted? = some e) :
    phase.held? = some e := by
  cases phase <;> first | exact h | simp [accepted?] at h

end Phase

/-- The act leaves the store to the pass under way, which does not `retire`. -/
def Act.alone {W : WritePath} : Act W → Bool
  | .client (.submit _ _ _ _) | .client (.put _ _) | .client (.remove _ _) => false
  | .restart _ _ | .pass .retire => false
  | _ => true

namespace Journal

variable {W : WritePath} {start g g' : Journal W} {p p' : Pass} {a : Act W} {acts : List (Act W)}
  {visits : List Visit} {readings : List Reading} {droppings : List Entry} {e : Entry}

/-- **The end of a visit,** at `consider`, `delete` and `countFailure`. -/
def visit? (g : Journal W) : Act W → Option Visit
  | .pass (.consider now) =>
    match g.pass.map Pass.phase with
    | some (.fetched e) =>
      if e.eligible now g.settings.replayAge then
        match g.registry.decode e.version e.payload with
        | .error _ => some ⟨e, .undecodable⟩
        | .ok _ => none
      else some ⟨e, .tooYoung⟩
    | _ => none
  | .pass (.delete failure) =>
    match g.pass.map Pass.phase with
    | some (.deleting e _) =>
      some ⟨e, if (g.onStore failure (.delete e.id)).1.isOk then .replayed else .undeleted⟩
    | _ => none
  | .pass .countFailure =>
    match g.pass.map Pass.phase with
    | some (.failed e _) => some ⟨e, .failed⟩
    | _ => none
  | _ => none

/-- **The pass reads the clock** for an entry, at `consider`. -/
def reading? (g : Journal W) : Act W → Option Reading
  | .pass (.consider now) =>
    match g.pass.map Pass.phase with
    | some (.fetched e) => some ⟨e, now⟩
    | _ => none
  | _ => none

/-- **A mutation is left out** at `sort`, of the entry that is returned. -/
def dropping? (g : Journal W) : Act W → Option Entry
  | .pass .sort =>
    match g.pass.map Pass.phase with
    | some (.sorting e (m :: _) _ _) =>
      if (W.truncatedAt g.path m.table).any fun at' => e.written ≤ at' then some e else none
    | _ => none
  | _ => none

/-- **An entry is accepted:** `eligible` at the reading `r`, and decoded. -/
structure Accepts (g : Journal W) (r : Reading) (e : Entry) : Prop where
  /-- The clock was read for it. -/
  entry : r.entry = e
  /-- It was old enough. -/
  eligible : e.eligible r.now g.settings.replayAge = true
  /-- It decodes. -/
  decodes : ∃ ms, g.registry.decode e.version e.payload = .ok ms

/-- **The verdict fits the clock and the formats:** an entry is `tooYoung` just if it is not
    `eligible` at the time of the reading, and `undecodable` just if it is and does not decode. -/
inductive Judged (g : Journal W) : Reading → Visit → Prop where
  /-- Not `eligible`. -/
  | tooYoung {e : Entry} {now : Timestamp}
      (hage : e.eligible now g.settings.replayAge = false) : Judged g ⟨e, now⟩ ⟨e, .tooYoung⟩
  /-- `eligible`, but `decode` fails. -/
  | undecodable {e : Entry} {now : Timestamp} {err : CodecError}
      (hage : e.eligible now g.settings.replayAge = true)
      (hdecode : g.registry.decode e.version e.payload = .error err) :
      Judged g ⟨e, now⟩ ⟨e, .undecodable⟩
  /-- One of the three other verdicts, on an entry of `Accepts`. -/
  | attempted {r : Reading} {e : Entry} {verdict : Verdict} (haccepts : g.Accepts r e)
      (hyoung : verdict ≠ .tooYoung) (hdecoded : verdict ≠ .undecodable) :
      Judged g r ⟨e, verdict⟩

/-- `Judged` reads `settings` and `registry` only. -/
theorem Judged.congr {r : Reading} {v : Visit} (h : g.Judged r v)
    (hsame : g.settings = g'.settings ∧ g.registry = g'.registry) : g'.Judged r v := by
  cases h with
  | tooYoung hage => exact .tooYoung (hsame.1 ▸ hage)
  | undecodable hage hdecode => exact .undecodable (hsame.1 ▸ hage) (hsame.2 ▸ hdecode)
  | attempted haccepts hyoung hdecoded =>
    obtain ⟨ms, hdecode⟩ := haccepts.decodes
    exact .attempted ⟨haccepts.entry, hsame.1 ▸ haccepts.eligible, ms, hsame.2 ▸ hdecode⟩ hyoung
      hdecoded

/-! ### What a move writes down -/

section seen

variable {now : Timestamp} {ms : List Mutation} {err : CodecError}

theorem visit?_tooYoung (hpass : g.pass = some p) (hphase : p.phase = .fetched e)
    (hage : e.eligible now g.settings.replayAge = false) :
    g.visit? (.pass (.consider now)) = some ⟨e, .tooYoung⟩ := by
  simp only [visit?, hpass, Option.map_some, hphase, hage, Bool.false_eq_true, if_false]

theorem visit?_undecodable (hpass : g.pass = some p) (hphase : p.phase = .fetched e)
    (hage : e.eligible now g.settings.replayAge = true)
    (hdecode : g.registry.decode e.version e.payload = .error err) :
    g.visit? (.pass (.consider now)) = some ⟨e, .undecodable⟩ := by
  simp only [visit?, hpass, Option.map_some, hphase, hage, hdecode, if_true]

/-- An accepted entry is not done with at the first look. -/
theorem visit?_accepted (hpass : g.pass = some p) (hphase : p.phase = .fetched e)
    (hage : e.eligible now g.settings.replayAge = true)
    (hdecode : g.registry.decode e.version e.payload = .ok ms) :
    g.visit? (.pass (.consider now)) = none := by
  simp only [visit?, hpass, Option.map_some, hphase, hage, hdecode, if_true]

theorem reading?_fetched (hpass : g.pass = some p) (hphase : p.phase = .fetched e) :
    g.reading? (.pass (.consider now)) = some ⟨e, now⟩ := by
  simp only [reading?, hpass, Option.map_some, hphase]

/-- What the store answers decides between `replayed` and `undeleted`. -/
theorem visit?_delete {failure : Option StoreError} {result : Except StoreError Unit}
    {dropped : Nat} (hpass : g.pass = some p) (hphase : p.phase = .deleting e dropped)
    (hdelete : g.onStore failure (.delete e.id) = (result, g')) :
    g.visit? (.pass (.delete failure))
      = some ⟨e, if result.isOk then .replayed else .undeleted⟩ := by
  simp only [visit?, hpass, Option.map_some, hphase, hdelete]

theorem visit?_countFailure {reason : ReplayError} (hpass : g.pass = some p)
    (hphase : p.phase = .failed e reason) :
    g.visit? (.pass .countFailure) = some ⟨e, .failed⟩ := by
  simp only [visit?, hpass, Option.map_some, hphase]

/-- A mutation is written down as left out just if its table was truncated at `e.written` or
    later. -/
theorem dropping?_sorting {m : Mutation} {rest live : List Mutation} {dropped : Nat}
    (hpass : g.pass = some p) (hphase : p.phase = .sorting e (m :: rest) live dropped) :
    g.dropping? (.pass .sort)
      = if (W.truncatedAt g.path m.table).any fun at' => e.written ≤ at' then some e else none := by
  simp only [dropping?, hpass, Option.map_some, hphase]

end seen

/-- **What a move is to the books:** what `visit?`, `reading?` and `dropping?` see of it, and what
    it changes of what `Books` speaks of. -/
inductive Writes (g : Journal W) (p : Pass) : PassAct → Journal W → Prop where
  /-- The pass stops, for it was asked to: `stopRequested`. -/
  | stopped {act : PassAct} (hact : act = .wake ∨ ∃ now, act = .consider now)
      (hstop : g.stopRequested p = true) : Writes g p act (g.finish p true)
  /-- The pass breaks down. -/
  | brokeDown {message : String} :
      Writes g p (.panic message) (g.passAt p (.finished (.error (.panicked message))))
  /-- No id is left in `p.scan`. -/
  | exhausted (hphase : p.phase = .between) (hids : p.scan.ids = []) :
      Writes g p .fetch (g.finish p false)
  /-- The next id of `p.scan` comes up. -/
  | next {found : Option Entry} {scan : Scan} {phase : Phase} (hphase : p.phase = .between)
      (hscan : p.scan.visit g.entries = some (found, scan))
      (hfound : found = none ∧ phase = .between ∨ ∃ e, found = some e ∧ phase = .fetched e) :
      Writes g p .fetch (g.passAt { p with scan } phase)
  /-- The pass is done with an entry at the first look, and notes it. -/
  | dismissed {e : Entry} {now : Timestamp} {verdict : Verdict} {g' : Journal W} {p' : Pass}
      (hphase : p.phase = .fetched e)
      (hreading : g.reading? (.pass (.consider now)) = some ⟨e, now⟩)
      (hvisit : g.visit? (.pass (.consider now)) = some ⟨e, verdict⟩)
      (hjudged : g.Judged ⟨e, now⟩ ⟨e, verdict⟩) (hkept : verdict ≠ .replayed)
      (hsame : g'.store = g.store ∧ g'.settings = g.settings ∧ g'.registry = g.registry)
      (hpass' : g'.pass = some p') (hplace : p'.scan = p.scan ∧ p'.phase = .between)
      (hreport : p'.report = p.report.note e 0 verdict) : Writes g p (.consider now) g'
  /-- An entry is accepted, and counts in `scanned`. -/
  | accepted {e : Entry} {now : Timestamp} {ms : List Mutation} {phase : Phase}
      (hphase : p.phase = .fetched e)
      (hreading : g.reading? (.pass (.consider now)) = some ⟨e, now⟩)
      (hvisit : g.visit? (.pass (.consider now)) = none)
      (hage : e.eligible now g.settings.replayAge = true)
      (hdecode : g.registry.decode e.version e.payload = .ok ms)
      (hnext : phase = .pacing e ms ∨ phase = .sorting e ms [] 0) :
      Writes g p (.consider now)
        (g.passAt { p with report := { p.report with scanned := p.report.scanned + 1 } } phase)
  /-- A mutation is left out. -/
  | leftOut {e : Entry} {m : Mutation} {rest live : List Mutation} {dropped : Nat}
      (hphase : p.phase = .sorting e (m :: rest) live dropped)
      (hdropping : g.dropping? (.pass .sort) = some e) :
      Writes g p .sort (g.passAt p (.sorting e rest live (dropped + 1)))
  /-- The pass gets on with the entry that it has `accepted?`. -/
  | onward {act : PassAct} {e : Entry} {g' : Journal W} {p' : Pass}
      (hquiet : g.visit? (.pass act) = none ∧ g.reading? (.pass act) = none
        ∧ g.dropping? (.pass act) = none)
      (hsame : g'.store = g.store ∧ g'.settings = g.settings ∧ g'.registry = g.registry)
      (hpass' : g'.pass = some p') (hplace : p'.scan = p.scan ∧ p'.report = p.report)
      (hbefore : p.phase.accepted? = some e) (hafter : p'.phase.accepted? = some e)
      (hleft : ∀ n, p'.phase.leftOut? = some n → p.phase.leftOut? = some n) : Writes g p act g'
  /-- An attempt has its outcome, and the pass notes it. -/
  | concluded {act : PassAct} {e : Entry} {verdict : Verdict} {n : Nat} {g' : Journal W} {p' : Pass}
      (hquiet : g.reading? (.pass act) = none ∧ g.dropping? (.pass act) = none)
      (hvisit : g.visit? (.pass act) = some ⟨e, verdict⟩)
      (hverdict : verdict ≠ .tooYoung ∧ verdict ≠ .undecodable)
      (haccepted : p.phase.accepted? = some e)
      (hleft : verdict = .replayed → p.phase.leftOut? = some n)
      (hstore : g.store.Sound → g'.store.Sound
        ∧ g'.entries = g.entries.minus (if verdict = .replayed then [e] else []))
      (hsame : g'.settings = g.settings ∧ g'.registry = g.registry)
      (hpass' : g'.pass = some p') (hplace : p'.scan = p.scan ∧ p'.phase = .between)
      (hreport : p'.report = { p.report.note e n verdict with scanned := p.report.scanned }) :
      Writes g p act g'

/-- `awaiting` is a place within the attempt on `e`. -/
theorem accepted?_awaiting (e : Entry) (pending dropped : Nat) :
    (awaiting e pending dropped).accepted? = some e
      ∧ (awaiting e pending dropped).leftOut? = some dropped := by
  unfold awaiting
  split <;> exact ⟨rfl, rfl⟩

/-- At `delete` the store decides the outcome of an attempt in which everything was delivered. -/
theorem writes_of_delete {failure : Option StoreError} (hpass : g.pass = some p)
    (hmove : g.PassMove p (.delete failure) g') : g.Writes p (.delete failure) g' := by
  cases hmove with
  | deleted hphase hdelete =>
    have hvisit := visit?_delete hpass hphase hdelete
    have hstored := fun hsound => entries_of_onStore hsound hdelete
    obtain ⟨store, rfl⟩ := exists_store_of_onStore hdelete
    exact .concluded ⟨rfl, rfl⟩ hvisit ⟨nofun, nofun⟩ (by rw [hphase]; rfl)
      (fun _ => by rw [hphase]; rfl) hstored ⟨rfl, rfl⟩ rfl ⟨rfl, rfl⟩ rfl
  | undeleted hphase hdelete =>
    have hvisit := visit?_delete hpass hphase hdelete
    have hstored := fun hsound => entries_of_onStore_error hsound hdelete
    obtain ⟨store, rfl⟩ := exists_store_of_onStore hdelete
    exact .concluded (n := 0) ⟨rfl, rfl⟩ hvisit ⟨nofun, nofun⟩
      (by rw [hphase]; rfl) nofun hstored ⟨rfl, rfl⟩ rfl ⟨rfl, rfl⟩ rfl

/-- **Every move** of a pass that is not yet `retired` is one of these to the books. -/
theorem writes_of_passMove {act : PassAct} (hpass : g.pass = some p) (hmove : g.PassMove p act g')
    (hstay : act ≠ .retire) : g.Writes p act g' := by
  -- Most moves are within an attempt, where nothing is written down.
  have honward : ∀ {g₁ : Journal W} {p₁ : Pass} {e : Entry} {phase : Phase},
      (g.visit? (.pass act) = none ∧ g.reading? (.pass act) = none
        ∧ g.dropping? (.pass act) = none) →
      g₁.pass = some p₁ → p.phase = phase → phase.accepted? = some e →
      p₁.phase.accepted? = some e → (∀ n, p₁.phase.leftOut? = some n → phase.leftOut? = some n) →
      (g₁.store = g.store ∧ g₁.settings = g.settings ∧ g₁.registry = g.registry) →
      (p₁.scan = p.scan ∧ p₁.report = p.report) → g.Writes p act g₁ :=
    fun hquiet hpass₁ hphase hbefore hafter hleft hsame hplace =>
      .onward hquiet hsame hpass₁ hplace (hphase ▸ hbefore) hafter (hphase ▸ hleft)
  cases hmove with
  | stopped hphase hstop => exact .stopped (.inr ⟨_, rfl⟩) hstop
  | wokenToStop hphase hstop => exact .stopped (.inl rfl) hstop
  | panicked => exact .brokeDown
  | retired hphase => exact absurd rfl hstay
  | exhausted hphase hscan => exact .exhausted hphase (Scan.visit_eq_none_iff.1 hscan)
  | skipped hphase hscan => exact .next hphase hscan (.inl ⟨rfl, rfl⟩)
  | fetched hphase hscan => exact .next hphase hscan (.inr ⟨_, rfl, rfl⟩)
  | tooYoung hphase hage =>
    exact .dismissed hphase (reading?_fetched hpass hphase) (visit?_tooYoung hpass hphase hage)
      (.tooYoung hage) (by decide) ⟨rfl, rfl, rfl⟩ rfl ⟨rfl, rfl⟩ rfl
  | undecodable hphase hage hdecode =>
    exact .dismissed hphase (reading?_fetched hpass hphase)
      (visit?_undecodable hpass hphase hage hdecode) (.undecodable hage hdecode) (by decide)
      ⟨rfl, rfl, rfl⟩ rfl ⟨rfl, rfl⟩ rfl
  | accepted hphase hage hdecode hnext =>
    exact .accepted hphase (reading?_fetched hpass hphase)
      (visit?_accepted hpass hphase hage hdecode) hage hdecode hnext
  | paced hphase hnext =>
    rename_i e ms elapsed throttle phase
    refine honward ⟨rfl, rfl, rfl⟩ rfl hphase (e := e) rfl ?_ ?_ ⟨rfl, rfl, rfl⟩ ⟨rfl, rfl⟩
    · rcases hnext with rfl | rfl <;> rfl
    · rcases hnext with rfl | rfl <;> exact fun n hn => hn
  | dropped hphase htruncated hlate =>
    refine .leftOut hphase ?_
    rw [dropping?_sorting hpass hphase, htruncated]
    exact if_pos (decide_eq_true hlate)
  | kept hphase hkept =>
    refine honward ⟨rfl, rfl, ?_⟩ rfl hphase rfl rfl (fun n hn => hn) ⟨rfl, rfl, rfl⟩ ⟨rfl, rfl⟩
    rw [dropping?_sorting hpass hphase, if_neg]
    intro hany
    obtain ⟨truncated, htruncated, hlate⟩ := (Option.any_eq_true _ _).1 hany
    exact hkept truncated htruncated (of_decide_eq_true hlate)
  | attempted hphase =>
    refine honward ⟨rfl, rfl, ?_⟩ rfl hphase rfl rfl (fun n hn => hn) ⟨rfl, rfl, rfl⟩ ⟨rfl, rfl⟩
    simp only [dropping?, hpass, Option.map_some, hphase]
  | woken hphase | offered hphase hopen | inserted hphase hpush | roused hphase hrouse =>
    exact honward ⟨rfl, rfl, rfl⟩ rfl hphase rfl rfl (fun n hn => hn) ⟨rfl, rfl, rfl⟩ ⟨rfl, rfl⟩
  | refusedClosed hphase hclosed | refusedFull hphase hfull | collectedError hphase hmailbox
  | abandoned hphase hmailbox hnobody | expired hphase =>
    exact honward ⟨rfl, rfl, rfl⟩ rfl hphase rfl rfl (fun n hn => by simp [Phase.leftOut?] at hn)
      ⟨rfl, rfl, rfl⟩ ⟨rfl, rfl⟩
  | offeredAll hphase | collected hphase hmailbox =>
    refine honward ⟨rfl, rfl, rfl⟩ rfl hphase rfl (accepted?_awaiting _ _ _).1 (fun n hn => ?_)
      ⟨rfl, rfl, rfl⟩ ⟨rfl, rfl⟩
    rwa [show (awaiting _ _ _).leftOut? = _ from (accepted?_awaiting _ _ _).2] at hn
  | deleted hphase hdelete => exact writes_of_delete hpass (.deleted hphase hdelete)
  | undeleted hphase hdelete => exact writes_of_delete hpass (.undeleted hphase hdelete)
  | counted hphase =>
    exact .concluded (n := 0) ⟨rfl, rfl⟩ (visit?_countFailure hpass hphase) ⟨nofun, nofun⟩
      (by rw [hphase]; rfl) nofun (fun hsound => ⟨hsound, rfl⟩) ⟨rfl, rfl⟩ rfl ⟨rfl, rfl⟩ rfl

/-! ### The books -/

/-- **The books of a pass** over what `start` stored: `visits`, `readings` and `droppings` agree
    with what the pass `p` of `g` has done so far. -/
structure Books (start : Journal W) (visits : List Visit) (readings : List Reading)
    (droppings : List Entry) (g : Journal W) (p : Pass) : Prop where
  /-- The store is sound. -/
  sound : g.store.Sound
  /-- The settings and the formats are those of `start`. -/
  same : g.settings = start.settings ∧ g.registry = start.registry
  /-- What `start` stored is visited, in hand, or still to come, in this order. -/
  order : ∃ later, start.entries.toList = visits.map Visit.entry ++ p.phase.held?.toList ++ later
    ∧ p.scan.ids = later.map Entry.id
  /-- Just the `replayedEntries` are gone. -/
  stored : g.entries = start.entries.minus (replayedEntries visits)
  /-- The report is that `of` the visits, with an `accepted?` entry counted as scanned. -/
  report : p.report = { Report.of p.report.pass visits droppings with
    scanned := visits.length + p.phase.accepted?.toList.length }
  /-- The clock was read once for each visit, and for an `accepted?` entry. -/
  read : ∃ earlier latest, readings = earlier ++ latest
    ∧ List.Forall₂ start.Judged earlier visits
    ∧ List.Forall₂ start.Accepts latest p.phase.accepted?.toList
  /-- Mutations were left out of these entries only. -/
  dropped : ∀ e ∈ droppings, e ∈ visits.map Visit.entry ∨ p.phase.accepted? = some e
  /-- The phase knows how many were left out of the entry that it is at. -/
  leftOut : ∀ e n, p.phase.accepted? = some e → p.phase.leftOut? = some n → droppings.count e = n
  /-- At `finished` nothing is to come, and the report is given. -/
  ended : ∀ report, p.phase = .finished (.ok report) → p.scan.ids = [] ∧ p.report = report

/-- `Books` speaks of the pass, of `entries`, `settings` and `registry`. -/
theorem Books.keep (h : Books start visits readings droppings g p) (hsound : g'.store.Sound)
    (hentries : g'.entries = g.entries)
    (hsame : g'.settings = g.settings ∧ g'.registry = g.registry) :
    Books start visits readings droppings g' p :=
  { h with
    sound := hsound
    same := ⟨hsame.1.trans h.same.1, hsame.2.trans h.same.2⟩
    stored := hentries.trans h.stored }

/-- The entry that is `held?` was not visited before. -/
theorem Books.fresh (h : Books start visits readings droppings g p)
    (hheld : p.phase.held? = some e) : e ∉ visits.map Visit.entry := by
  obtain ⟨later, horder, -⟩ := h.order
  intro hmem
  rw [hheld, List.append_assoc] at horder
  exact Entries.id_not_mem horder (List.mem_append_left _ (List.mem_singleton_self e))
    (List.mem_map_of_mem hmem)

/-- **A move within an attempt** changes nothing in the books. -/
theorem Books.onward (h : Books start visits readings droppings g p)
    (hsame : g'.store = g.store ∧ g'.settings = g.settings ∧ g'.registry = g.registry)
    (hpass : p'.scan = p.scan ∧ p'.report = p.report) (hbefore : p.phase.accepted? = some e)
    (hafter : p'.phase.accepted? = some e)
    (hleft : ∀ n, p'.phase.leftOut? = some n → p.phase.leftOut? = some n) :
    Books start visits readings droppings g' p' := by
  obtain ⟨hstore, hsettings, hregistry⟩ := hsame
  obtain ⟨hscan, hreport⟩ := hpass
  have hkept : p'.phase.accepted? = p.phase.accepted? := hafter.trans hbefore.symm
  have hheld : p'.phase.held? = p.phase.held? :=
    (Phase.held?_of_accepted? hafter).trans (Phase.held?_of_accepted? hbefore).symm
  -- What is accepted stays accepted, and everything else that the books look at stays as it was.
  exact
    { sound := by rw [hstore]; exact h.sound
      same := ⟨hsettings.trans h.same.1, hregistry.trans h.same.2⟩
      order := by rw [hheld, hscan]; exact h.order
      stored := by rw [entries, hstore]; exact h.stored
      report := by rw [hreport, hkept]; exact h.report
      read := by rw [hkept]; exact h.read
      dropped := by rw [hkept]; exact h.dropped
      leftOut := fun e' n he' hn => h.leftOut e' n (hkept ▸ he') (hleft n hn)
      ended := fun report hphase => by simp [hphase, Phase.accepted?] at hafter }

/-- **A visit ends** with `verdict`: `⟨e, verdict⟩` is entered in the books, with what was left out
    of it, and the store is the same unless the entry was `replayed`. -/
theorem Books.settle {verdict : Verdict} {readings' : List Reading}
    (h : Books start visits readings droppings g p) (hheld : p.phase.held? = some e)
    (hsound : g'.store.Sound) (hsame : g'.settings = g.settings ∧ g'.registry = g.registry)
    (hscan : p'.scan = p.scan) (hphase : p'.phase = .between)
    (hstored : g'.entries = g.entries.minus (if verdict = .replayed then [e] else []))
    (hreport : p'.report
      = (Report.of p.report.pass visits droppings).note e (droppings.count e) verdict)
    (hread : ∃ earlier r, readings' = earlier ++ [r] ∧ List.Forall₂ start.Judged earlier visits
      ∧ start.Judged r ⟨e, verdict⟩) :
    Books start (visits ++ [⟨e, verdict⟩]) readings' droppings g' p' := by
  have hpass : p'.report.pass = p.report.pass := by
    rw [hreport]
    cases verdict <;> rfl
  refine ⟨hsound, ⟨hsame.1.trans h.same.1, hsame.2.trans h.same.2⟩, ?_, ?_, ?_, ?_, ?_, ?_, ?_⟩
  · -- The entry in hand is the last one visited now.
    obtain ⟨later, horder, hids⟩ := h.order
    refine ⟨later, ?_, hscan ▸ hids⟩
    rw [horder, hheld, hphase]
    simp [Phase.held?]
  · rw [hstored, h.stored, replayedEntries_concat, Entries.minus_append]
  · rw [hpass, hphase, Report.of_concat, hreport]
    simp only [Phase.accepted?, Option.toList_none, List.length_nil, List.length_append,
      List.length_singleton]
    cases verdict <;> rfl
  · obtain ⟨earlier, r, rfl, hearlier, hjudged⟩ := hread
    refine ⟨earlier ++ [r], [], (List.append_nil _).symm,
      List.rel_append hearlier (.cons hjudged .nil), ?_⟩
    rw [hphase]
    exact .nil
  · -- What was left out was left out of a visited entry or of this one.
    intro e' he'
    rw [List.map_append]
    rcases h.dropped e' he' with hvisited | haccepted
    · exact .inl (List.mem_append_left _ hvisited)
    · have heq := Option.some.inj ((Phase.held?_of_accepted? haccepted).symm.trans hheld)
      exact .inl (List.mem_append_right _ (by rw [heq]; exact List.mem_singleton_self e))
  · intro e' n he'
    simp [hphase, Phase.accepted?] at he'
  · intro report hfinished
    simp [hphase] at hfinished

/-! ### The books of a whole pass -/

/-- **`begin`** opens the books, which are empty. -/
theorem books_begin {ticket : Nat} (hsound : start.store.Sound)
    (hbegin : start.begin ticket = some g) :
    ∃ p, g.pass = some p ∧ Books start [] [] [] g p := by
  obtain ⟨-, number, throttle, rfl⟩ := begin_cases hbegin
  exact ⟨_, rfl,
    { sound := hsound
      same := ⟨rfl, rfl⟩
      order := ⟨_, rfl, start.entries.ids_eq⟩
      stored := rfl
      report := rfl
      read := ⟨[], [], rfl, .nil, .nil⟩
      dropped := fun e he => absurd he List.not_mem_nil
      leftOut := fun e n he => by simp [Phase.accepted?] at he
      ended := fun report hphase => by simp at hphase }⟩

/-- A look at the first of the entries that are ahead: the scan finds what is stored under its
    id. -/
theorem exists_head_of_visit {ahead : List Entry} {es : Entries} {found : Option Entry}
    {scan scan' : Scan} (hscan : scan.visit es = some (found, scan'))
    (hids : scan.ids = ahead.map Entry.id) :
    ∃ e later, ahead = e :: later ∧ scan'.ids = later.map Entry.id ∧ es.get? e.id = found := by
  obtain ⟨id, hnext, hfound⟩ := Scan.visit_eq_some_iff.1 hscan
  rw [hnext] at hids
  cases ahead with
  | nil => simp at hids
  | cons e later =>
    obtain ⟨rfl, hlater⟩ := List.cons.inj hids
    exact ⟨e, later, rfl, hlater, hfound⟩

/-- **The next id** has its entry in the store, as `start` had it. -/
theorem Books.next (h : Books start visits readings droppings g p) (hphase : p.phase = .between)
    {found : Option Entry} {scan : Scan} (hscan : p.scan.visit g.entries = some (found, scan)) :
    ∃ e, found = some e
      ∧ Books start visits readings droppings (g.passAt { p with scan } (.fetched e))
        { p with scan, phase := .fetched e } := by
  obtain ⟨later, horder, hids⟩ := h.order
  obtain ⟨e, later, rfl, hlater, hfound⟩ := exists_head_of_visit hscan hids
  -- The entry was there at the start and was not replayed since, so it is stored as it was then.
  have hmem : e ∈ start.entries.toList := by
    rw [horder]
    exact List.mem_append_right _ List.mem_cons_self
  -- The ids of the entries are distinct, so no visit before was of this one.
  have hnew : e.id ∉ (replayedEntries visits).map Entry.id := by
    intro hgone
    obtain ⟨e', he', hid⟩ := List.mem_map.1 hgone
    rw [List.append_assoc] at horder
    refine Entries.id_not_mem horder (List.mem_append_right _ List.mem_cons_self) ?_
    exact hid ▸ List.mem_map_of_mem (mem_of_mem_replayedEntries he')
  have hstored : g.entries.get? e.id = some e := by
    rw [h.stored, Entries.get?_minus, if_neg hnew]
    exact Entries.mem_toList_iff.1 hmem
  refine ⟨e, hfound.symm.trans hstored, ?_⟩
  refine { h with order := ⟨later, ?_, hlater⟩, report := ?_, read := ?_, dropped := ?_,
                  leftOut := ?_, ended := ?_ }
  · rw [horder, hphase]
    simp [Phase.held?]
  · exact h.report.trans (by rw [hphase]; rfl)
  · obtain ⟨earlier, latest, hreadings, hearlier, hlatest⟩ := h.read
    rw [hphase] at hlatest
    exact ⟨earlier, latest, hreadings, hearlier, hlatest⟩
  · intro e' he'
    rcases h.dropped e' he' with hvisited | haccepted
    · exact .inl hvisited
    · simp [hphase, Phase.accepted?] at haccepted
  · intro e' n he'
    simp [Phase.accepted?] at he'
  · intro report hfinished
    simp at hfinished

/-- While nothing is `accepted?` the report is that `of` the visits. -/
theorem Books.report_eq (h : Books start visits readings droppings g p)
    (hnone : p.phase.accepted? = none) :
    p.report = Report.of p.report.pass visits droppings := by
  rw [h.report, hnone]
  rfl

/-- While nothing is `accepted?` every reading is of a visit. -/
theorem Books.read_eq (h : Books start visits readings droppings g p)
    (hnone : p.phase.accepted? = none) : List.Forall₂ start.Judged readings visits := by
  obtain ⟨earlier, latest, rfl, hearlier, hlatest⟩ := h.read
  rw [hnone] at hlatest
  cases hlatest
  rwa [List.append_nil]

/-- **A verdict at the first look:** `tooYoung` or `undecodable`. -/
theorem Books.dismiss {verdict : Verdict} {now : Timestamp}
    (h : Books start visits readings droppings g p) (hphase : p.phase = .fetched e)
    (hsame : g'.store = g.store ∧ g'.settings = g.settings ∧ g'.registry = g.registry)
    (hpass : p'.scan = p.scan ∧ p'.phase = .between)
    (hreport : p'.report = p.report.note e (droppings.count e) verdict)
    (hkept : verdict ≠ .replayed) (hjudged : start.Judged ⟨e, now⟩ ⟨e, verdict⟩) :
    Books start (visits ++ [⟨e, verdict⟩]) (readings ++ [⟨e, now⟩]) droppings g' p' := by
  have hnone : p.phase.accepted? = none := by rw [hphase]; rfl
  refine h.settle (by rw [hphase]; rfl) (by rw [hsame.1]; exact h.sound) hsame.2 hpass.1 hpass.2
    ?_ ?_ ⟨readings, _, rfl, h.read_eq hnone, hjudged⟩
  · rw [if_neg hkept, entries, hsame.1]
    rfl
  · rw [hreport]
    exact congrArg (fun r => Report.note r e _ verdict) (h.report_eq hnone)

/-- **A verdict on an `accepted?` entry.** -/
theorem Books.conclude {verdict : Verdict} (h : Books start visits readings droppings g p)
    (haccepted : p.phase.accepted? = some e)
    (hsound : g'.store.Sound) (hsame : g'.settings = g.settings ∧ g'.registry = g.registry)
    (hpass : p'.scan = p.scan ∧ p'.phase = .between)
    (hstored : g'.entries = g.entries.minus (if verdict = .replayed then [e] else []))
    (hreport : p'.report
      = { p.report.note e (droppings.count e) verdict with scanned := p.report.scanned })
    (hyoung : verdict ≠ .tooYoung) (hdecoded : verdict ≠ .undecodable) :
    Books start (visits ++ [⟨e, verdict⟩]) readings droppings g' p' := by
  refine h.settle (Phase.held?_of_accepted? haccepted) hsound hsame hpass.1 hpass.2 hstored ?_ ?_
  · -- The entry was counted as scanned when it was fetched; the verdict adds the rest.
    have hscanned : p.report
        = { Report.of p.report.pass visits droppings with scanned := visits.length + 1 } := by
      rw [h.report, haccepted]
      rfl
    rw [hreport, hscanned]
    cases verdict <;> rfl
  obtain ⟨earlier, latest, rfl, hearlier, hlatest⟩ := h.read
  rw [haccepted] at hlatest
  -- The last reading is of this entry, and becomes a judgement.
  cases hlatest with
  | cons haccepts hnil =>
    cases hnil
    exact ⟨earlier, _, rfl, hearlier, .attempted haccepts hyoung hdecoded⟩

/-- **An entry is accepted:** it counts as `scanned`. -/
theorem Books.accept {phase : Phase} {now : Timestamp} {ms : List Mutation}
    (h : Books start visits readings droppings g p) (hphase : p.phase = .fetched e)
    (hage : e.eligible now g.settings.replayAge = true)
    (hdecode : g.registry.decode e.version e.payload = .ok ms)
    (hnext : phase = .pacing e ms ∨ phase = .sorting e ms [] 0) :
    Books start visits (readings ++ [⟨e, now⟩]) droppings g
      { p with report := { p.report with scanned := p.report.scanned + 1 }, phase } := by
  have hnone : p.phase.accepted? = none := by rw [hphase]; rfl
  have haccepted : phase.accepted? = some e ∧ phase.leftOut? = some 0 := by
    rcases hnext with rfl | rfl <;> exact ⟨rfl, rfl⟩
  have hnew : e ∉ visits.map Visit.entry := h.fresh (by rw [hphase]; rfl)
  have hvisited : ∀ e' ∈ droppings, e' ∈ visits.map Visit.entry := by
    intro e' he'
    rcases h.dropped e' he' with hvisited | haccepted
    · exact hvisited
    · simp [hnone] at haccepted
  refine { h with order := ?_, report := ?_, read := ?_, dropped := ?_, leftOut := ?_, ended := ?_ }
  · obtain ⟨later, horder, hids⟩ := h.order
    refine ⟨later, ?_, hids⟩
    rw [horder, hphase, Phase.held?_of_accepted? haccepted.1]
    rfl
  · show { p.report with scanned := p.report.scanned + 1 } = _
    rw [h.report_eq hnone, haccepted.1]
    rfl
  · refine ⟨readings, [⟨e, now⟩], rfl, h.read_eq hnone, ?_⟩
    rw [haccepted.1]
    exact .cons ⟨rfl, h.same.1 ▸ hage, ms, h.same.2 ▸ hdecode⟩ .nil
  · exact fun e' he' => .inl (hvisited e' he')
  · -- Nothing can have been left out of an entry that comes up only now.
    intro e' n he' hn
    obtain rfl := Option.some.inj (haccepted.1.symm.trans he')
    obtain rfl := Option.some.inj (haccepted.2.symm.trans hn)
    exact List.count_eq_zero_of_not_mem fun hmem => hnew (hvisited e hmem)
  · intro report hfinished
    have hphase' : phase = .finished (.ok report) := hfinished
    simp [hphase', Phase.accepted?] at haccepted

/-- **A mutation is left out** of the entry that is being sorted. -/
theorem Books.leaveOut {m : Mutation} {rest live : List Mutation} {dropped : Nat}
    (h : Books start visits readings droppings g p)
    (hphase : p.phase = .sorting e (m :: rest) live dropped) :
    Books start visits readings (droppings ++ [e]) g
      { p with phase := .sorting e rest live (dropped + 1) } := by
  have haccepted : p.phase.accepted? = some e := by rw [hphase]; rfl
  -- The entry is not among the visited ones, so the mutation left out counts for none of them.
  have hnew : e ∉ visits.map Visit.entry := h.fresh (by rw [hphase]; rfl)
  refine { h with order := ?_, report := ?_, read := ?_, dropped := ?_, leftOut := ?_, ended := ?_ }
  · obtain ⟨later, horder, hids⟩ := h.order
    refine ⟨later, ?_, hids⟩
    rw [horder, hphase]
    rfl
  · rw [Report.of_dropping fun hmem => hnew (mem_of_mem_replayedEntries hmem)]
    exact h.report.trans (by rw [haccepted]; rfl)
  · obtain ⟨earlier, latest, hreadings, hearlier, hlatest⟩ := h.read
    rw [haccepted] at hlatest
    exact ⟨earlier, latest, hreadings, hearlier, hlatest⟩
  · intro e' he'
    rcases List.mem_append.1 he' with hbefore | hnow
    · rcases h.dropped e' hbefore with hvisited | hsame
      · exact .inl hvisited
      · exact .inr (haccepted.symm.trans hsame)
    · rw [List.mem_singleton.1 hnow]
      exact .inr rfl
  · intro e' n he' hn
    obtain rfl := Option.some.inj he'
    obtain rfl := Option.some.inj hn
    rw [List.count_append, h.leftOut e dropped haccepted (by rw [hphase]; rfl)]
    simp
  · intro report hfinished
    simp at hfinished

/-- **No id is left:** `finish` gives the report. -/
theorem Books.close (h : Books start visits readings droppings g p) (hphase : p.phase = .between)
    (hids : p.scan.ids = []) :
    ∃ p', (g.finish p false).pass = some p'
      ∧ Books start visits readings droppings (g.finish p false) p' := by
  have hnone : p.phase.accepted? = none := by rw [hphase]; rfl
  -- No id is left, so nothing comes later and every reading is a judgement.
  refine ⟨_, rfl, { h with order := ?_, report := ?_, read := ?_, dropped := ?_, leftOut := ?_,
                           ended := ?_ }⟩
  · obtain ⟨later, horder, hlater⟩ := h.order
    rw [hphase] at horder
    exact ⟨later, horder, hlater⟩
  · show { p.report with cancelled := false } = _
    rw [h.report_eq hnone]
    rfl
  · exact ⟨readings, [], (List.append_nil _).symm, h.read_eq hnone, .nil⟩
  · intro e he
    rcases h.dropped e he with hvisited | haccepted
    · exact .inl hvisited
    · simp [hnone] at haccepted
  · intro e n he
    simp [Phase.accepted?] at he
  · intro report hfinished
    exact ⟨hids, Except.ok.inj (Phase.finished.inj hfinished)⟩

/-- **A move of a pass** keeps the books, with what is seen of it, unless the pass is `cutShort`:
    one case for each constructor of `Writes`. -/
theorem Books.move {act : PassAct} (h : Books start visits readings droppings g p)
    (hpass : g.pass = some p) (hmove : g.PassMove p act g') (hstay : act ≠ .retire) :
    ∃ p', g'.pass = some p' ∧ (p'.phase.cutShort = true
      ∨ Books start (visits ++ (g.visit? (.pass act)).toList)
          (readings ++ (g.reading? (.pass act)).toList)
          (droppings ++ (g.dropping? (.pass act)).toList) g' p') := by
  -- What is seen of the move stands in the goal as it is looked up; each case knows what it is.
  have hbooks : ∀ visit reading dropping {p'}, g.visit? (.pass act) = visit →
      g.reading? (.pass act) = reading → g.dropping? (.pass act) = dropping → g'.pass = some p' →
      Books start (visits ++ visit.toList) (readings ++ reading.toList)
        (droppings ++ dropping.toList) g' p' →
      ∃ p', g'.pass = some p' ∧ (p'.phase.cutShort = true
        ∨ Books start (visits ++ (g.visit? (.pass act)).toList)
            (readings ++ (g.reading? (.pass act)).toList)
            (droppings ++ (g.dropping? (.pass act)).toList) g' p') := by
    rintro visit reading dropping p' rfl rfl rfl hpass' h
    exact ⟨p', hpass', .inr h⟩
  cases writes_of_passMove hpass hmove hstay with
  | stopped hact hstop => exact ⟨_, rfl, .inl rfl⟩
  | brokeDown => exact ⟨_, rfl, .inl rfl⟩
  | exhausted hphase hids =>
    obtain ⟨p', hpass', hend⟩ := h.close hphase hids
    exact hbooks none none none rfl rfl rfl hpass' (by simpa using hend)
  | next hphase hscan hfound =>
    obtain ⟨e, rfl, hnext⟩ := h.next hphase hscan
    obtain ⟨hnone, -⟩ | ⟨e', he', rfl⟩ := hfound
    · simp at hnone
    · obtain rfl := Option.some.inj he'
      exact hbooks none none none rfl rfl rfl rfl (by simpa using hnext)
  | dismissed hphase hreading hvisit hjudged hkept hsame hpass' hplace hreport =>
    refine hbooks _ _ none hvisit hreading rfl hpass' ?_
    rw [Option.toList_none, List.append_nil]
    refine h.dismiss hphase hsame hplace ?_ hkept (hjudged.congr h.same)
    exact hreport.trans (Report.note_congr _ fun hreplayed => absurd hreplayed hkept)
  | accepted hphase hreading hvisit hage hdecode hnext =>
    refine hbooks none _ none hvisit hreading rfl rfl ?_
    rw [Option.toList_none, List.append_nil, Option.toList_none, List.append_nil]
    exact (h.accept hphase hage hdecode hnext).keep h.sound rfl ⟨rfl, rfl⟩
  | leftOut hphase hdropping =>
    refine hbooks none none _ rfl rfl hdropping rfl ?_
    rw [Option.toList_none, List.append_nil, Option.toList_none, List.append_nil]
    exact (h.leaveOut hphase).keep h.sound rfl ⟨rfl, rfl⟩
  | onward hquiet hsame hpass' hplace hbefore hafter hleft =>
    obtain ⟨hvisit, hreading, hdropping⟩ := hquiet
    refine hbooks _ _ _ hvisit hreading hdropping hpass' ?_
    simpa using h.onward hsame hplace hbefore hafter hleft
  | concluded hquiet hvisit hverdict haccepted hleft hstore hsame hpass' hplace hreport =>
    refine hbooks _ _ _ hvisit hquiet.1 hquiet.2 hpass' ?_
    rw [Option.toList_none, List.append_nil, Option.toList_none, List.append_nil]
    obtain ⟨hsound, hentries⟩ := hstore h.sound
    refine h.conclude haccepted hsound hsame hplace hentries ?_ hverdict.1 hverdict.2
    rw [hreport,
      Report.note_congr _ fun hreplayed => (h.leftOut _ _ haccepted (hleft hreplayed)).symm]

/-- Who is not the pass and does not end the process leaves `pass`, `settings` and `registry`. -/
theorem same_of_step (hother : ∀ act, a ≠ .pass act) (hstay : a.restarts = false)
    (hstep : g.step a = some g') :
    g'.pass = g.pass ∧ g'.settings = g.settings ∧ g'.registry = g.registry := by
  cases stepMove_of_step hstep with
  | worker hstep =>
    have hbeside := beside_of_workerStep hstep
    exact ⟨hbeside.pass, hbeside.settings, hbeside.registry⟩
  | begun | passed => exact absurd rfl (hother _)
  | restarted => exact Bool.noConfusion hstay
  | aside => exact ⟨rfl, rfl, rfl⟩

/-- Beside the pass, an act that is `alone` does nothing to what is stored, and nothing is seen of
    it. -/
theorem unseen_of_alone (hother : ∀ act, a ≠ .pass act) (halone : a.alone = true) :
    a.restarts = false ∧ g.doing? a = none
      ∧ g.visit? a = none ∧ g.reading? a = none ∧ g.dropping? a = none := by
  cases a with
  | pass act => exact absurd rfl (hother act)
  | restart directory ending => simp [Act.alone] at halone
  | client act =>
    cases act with
    | flush failure | compact failure => exact ⟨rfl, rfl, rfl, rfl, rfl⟩
    | submit id ms written failure | put e failure | remove id failure =>
      simp [Act.alone] at halone
  | worker act | path event | control move | closePool | clearPool =>
    exact ⟨rfl, rfl, rfl, rfl, rfl⟩

/-- **Every act** that is `alone` keeps the books, unless the pass is `cutShort`. -/
theorem books_of_step (hpass : g.pass = some p)
    (h : p.phase.cutShort = true ∨ Books start visits readings droppings g p)
    (halone : a.alone = true) (hstep : g.step a = some g') :
    ∃ p', g'.pass = some p' ∧ (p'.phase.cutShort = true
      ∨ Books start (visits ++ (g.visit? a).toList) (readings ++ (g.reading? a).toList)
          (droppings ++ (g.dropping? a).toList) g' p') := by
  by_cases hact : ∃ act, a = .pass act
  · obtain ⟨act, rfl⟩ := hact
    have hstay : act ≠ .retire := by
      rintro rfl
      simp [Act.alone] at halone
    have hmove := passMove_of_step hpass hstep
    -- A pass that was cut short stays so, and keeps no books.
    rcases h with hcut | hbooks
    · obtain ⟨p', hpass', hcut'⟩ := cutShort_of_move hcut hmove hstay
      exact ⟨p', hpass', .inl hcut'⟩
    · exact hbooks.move hpass hmove hstay
  · have hother : ∀ act, a ≠ .pass act := fun act heq => hact ⟨act, heq⟩
    obtain ⟨hstay, hdoing, hvisit, hreading, hdropping⟩ := unseen_of_alone (g := g) hother halone
    obtain ⟨hsame, hsettings, hregistry⟩ := same_of_step hother hstay hstep
    refine ⟨p, hsame.trans hpass, h.imp_right fun hbooks => ?_⟩
    -- The pass was alone, so nobody else changed what is stored.
    obtain ⟨hsound, hentries⟩ := effect_of_step hbooks.sound hstep
    have hkept : g'.entries = g.entries := by
      rcases hentries with hkept | ⟨op, hdone, -⟩
      · exact hkept
      · rw [hdoing] at hdone
        simp at hdone
    rw [hvisit, hreading, hdropping]
    simpa only [Option.toList_none, List.append_nil] using
      hbooks.keep hsound hkept ⟨hsettings, hregistry⟩

/-- **A whole run** of such acts keeps the books from `begin` on. -/
theorem books_of_run {ticket : Nat} (hsound : start.store.Sound)
    (hbegin : start.begin ticket = some g) (halone : ∀ a ∈ acts, a.alone = true)
    (hrun : g.run acts = some g') :
    ∃ p, g'.pass = some p ∧ (p.phase.cutShort = true
      ∨ Books start (g.along visit? acts) (g.along reading? acts) (g.along dropping? acts)
          g' p) := by
  obtain ⟨p, hpass, hbooks⟩ := books_begin hsound hbegin
  refine run_induction (I := fun acts g' => ∃ p, g'.pass = some p ∧ (p.phase.cutShort = true
    ∨ Books start (g.along visit? acts) (g.along reading? acts) (g.along dropping? acts) g' p))
    ⟨p, hpass, .inr hbooks⟩ ?_ hrun
  intro earlier g₁ a g₂ ha hearlier hstep ⟨p, hpass, h⟩
  rw [along_concat hearlier, along_concat hearlier, along_concat hearlier]
  exact books_of_step hpass h (halone a ha) hstep

/-- **The accounts of a pass** that began over `start` and was at its acts from `g` to `g'`: what is
    seen of it decides the report `r` and what is stored in the end. -/
structure Accounts (start g : Journal W) (acts : List (Act W)) (g' : Journal W) (r : Report) :
    Prop where
  /-- Each entry of `start` is visited once, in the order of the ids. -/
  visited : (g.along visit? acts).map Visit.entry = start.entries.toList
  /-- The clock is read once for each, and the verdicts fit the readings. -/
  judged : List.Forall₂ start.Judged (g.along reading? acts) (g.along visit? acts)
  /-- The report is that `of` the visits; bytes and mutations left out are those of replayed
      entries. -/
  report : r = Report.of r.pass (g.along visit? acts) (g.along dropping? acts)
  /-- Each visit has one outcome. -/
  scanned : r.scanned
    = r.notYetEligible + r.decodeFailures + r.applyFailures + r.deleteFailures + r.replayed
  /-- The `replayedEntries` are gone, and the others are as they were. -/
  stored : g'.entries = start.entries.minus (replayedEntries (g.along visit? acts))
  /-- As many entries are `retained` as were eligible and are still stored. -/
  retained : r.retained = (g.along reading? acts).countP fun reading =>
    reading.entry.eligible reading.now start.settings.replayAge
      && g'.entries.contains reading.entry.id

/-- Lists related by `R` have as many members with `p` as with `q`, if `R` relates `p` to `q`. -/
theorem countP_eq_of_forall₂ {α β : Type} {R : α → β → Prop} {as : List α} {bs : List β}
    {p : α → Bool} {q : β → Bool} (h : List.Forall₂ R as bs)
    (hpq : ∀ a b, R a b → b ∈ bs → p a = q b) : as.countP p = bs.countP q := by
  induction h with
  | nil => rfl
  | cons hab _ ih =>
    rw [List.countP_cons, List.countP_cons, hpq _ _ hab List.mem_cons_self,
      ih fun a b hr hb => hpq a b hr (List.mem_cons_of_mem _ hb)]

/-- **The accounts are settled** when the pass is `finished` with a report. -/
theorem Books.accounts (h : Books start (g.along visit? acts) (g.along reading? acts)
      (g.along dropping? acts) g' p) {r : Report}
    (hfinished : p.phase = .finished (.ok r)) : start.Accounts g acts g' r := by
  have hnone : p.phase.accepted? = none := by rw [hfinished]; rfl
  obtain ⟨hids, rfl⟩ := h.ended r hfinished
  -- All ids were visited, so the visited entries are all that there were.
  have hvisited : (g.along visit? acts).map Visit.entry = start.entries.toList := by
    obtain ⟨later, horder, hlater⟩ := h.order
    obtain rfl : later = [] := List.map_eq_nil_iff.1 (hlater.symm.trans hids)
    rw [horder, hfinished]
    simp [Phase.held?]
  have hjudged := h.read_eq hnone
  refine ⟨hvisited, hjudged, h.report_eq hnone, ?_, h.stored, ?_⟩
  · rw [h.report_eq hnone]
    exact Report.scanned_of _ _ _
  · rw [h.report_eq hnone, Report.retained_of, h.stored]
    refine (countP_eq_of_forall₂ hjudged fun reading v hrv hv => ?_).symm
    -- An entry is retained if it was eligible and is still stored: for each verdict the one or the
    -- other is known.
    have hstays := Entries.contains_minus hvisited hv
    cases hrv with
    | tooYoung hage =>
      rw [hage]
      rfl
    | undecodable hage hdecode =>
      rw [hage, Bool.true_and]
      exact hstays
    | attempted haccepts hyoung hdecoded =>
      rename_i e verdict
      obtain ⟨rfl, hage, -⟩ := haccepts
      rw [hage, Bool.true_and]
      refine hstays.trans ?_
      cases verdict <;> first | rfl | contradiction

end Journal

end BatchJournal
