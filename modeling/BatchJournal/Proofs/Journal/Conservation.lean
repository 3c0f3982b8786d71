import BatchJournal.Proofs.Journal.SingleFlight
import BatchJournal.Proofs.Journal.Storing
import BatchJournal.Proofs.Replay.Reports

namespace BatchJournal

/-!
# What becomes of batches

A batch that is submitted is stored until a client removes it or the pass takes it out.  The journal
counts as replayed what the pass deletes; a deletion does not tell whether anything was there, so a
batch that a client removes while the pass has it in hand is counted as well.

* `Journal.submitted?`, `Journal.removed?`, `Journal.taken?` — how batches come and go.
* `Journal.missed?`, `Journal.snatched?` — deletions that find nothing, and what they are due to.
* `Journal.Deals` — what an act does to the batches.
* `Journal.Conserved.step` — every act keeps the batches together.
* `Journal.balanced_of_run` — so they are conserved, and the totals count them and what was missed.
* `Journal.counted_though_removed` — a batch can be removed and counted as replayed.
-/

/-- The act goes through the journal: it is no `put` past the submissions and no `restart`. -/
def Act.isOrdinary {W : WritePath} : Act W → Bool
  | .client (.put _ _) | .restart _ _ => false
  | _ => true

/-! ### Ids that are stored -/

namespace Entries

variable {es : Entries} {id : BatchId} {e : Entry}

theorem mem_ids_iff : id ∈ es.ids ↔ es.contains id = true := by
  rw [contains, Option.isSome_iff_exists, ids, OrderedMap.mem_keys_iff]
  exact exists_congr fun e => OrderedMap.get?_eq_some_iff.symm

/-- **An id more,** if the entry is new: `put` adds it to `ids`. -/
theorem perm_ids_put (hnew : e.id ∉ es.ids) : (es.put e).ids.Perm (e.id :: es.ids) := by
  refine (List.perm_ext_iff_of_nodup ?_ ?_).2 fun id => ?_
  · rw [ids_eq]
    exact nodup_ids _
  · rw [List.nodup_cons, ids_eq]
    exact ⟨ids_eq es ▸ hnew, nodup_ids es⟩
  · rw [List.mem_cons, mem_ids_iff, mem_ids_iff, contains, contains, get?_put]
    by_cases hid : id = e.id <;> simp [hid]

/-- **An id less,** if there is an entry to delete: `delete` takes it out of `ids`. -/
theorem perm_ids_delete (hstored : id ∈ es.ids) : es.ids.Perm (id :: (es.delete id).ids) := by
  have hgone : id ∉ (es.delete id).ids := by
    simp [mem_ids_iff, contains, get?_delete]
  refine (List.perm_ext_iff_of_nodup ?_ ?_).2 fun id' => ?_
  · rw [ids_eq]
    exact nodup_ids _
  · rw [List.nodup_cons]
    exact ⟨hgone, ids_eq (es.delete id) ▸ nodup_ids _⟩
  · rw [List.mem_cons, mem_ids_iff, mem_ids_iff, contains, contains, get?_delete]
    by_cases hid : id' = id
    · simp only [hid, true_or, iff_true]
      exact mem_ids_iff.1 hstored
    · simp [hid]

end Entries

namespace Journal

variable {W : WritePath} {start g g' : Journal W} {acts : List (Act W)} {a : Act W} {e : Entry}
  {id : BatchId}

/-! ### Comings and goings -/

/-- The batch that a client submits, if `submit` succeeds. -/
def submitted? (g : Journal W) : Act W → Option BatchId
  | .client (.submit id ms written failure) =>
    if (g.submit id ms written failure).1.isOk then some id else none
  | _ => none

/-- The batch that a client removes and that is there, if `remove` succeeds. -/
def removed? (g : Journal W) : Act W → Option BatchId
  | .client (.remove id failure) =>
    if (g.remove id failure).1.isOk && g.entries.contains id then some id else none
  | _ => none

/-- The batch that the pass deletes, found or not. -/
def deleted? (g : Journal W) (a : Act W) : Option BatchId :=
  match a, g.doing? a with
  | .pass _, some (.delete id) => some id
  | _, _ => none

/-- The batch that the pass deletes and that is in `entries`. -/
def taken? (g : Journal W) (a : Act W) : Option BatchId := (g.deleted? a).filter g.entries.contains

/-- The batch that the pass deletes and that is not in `entries`. -/
def missed? (g : Journal W) (a : Act W) : Option BatchId :=
  (g.deleted? a).filter fun id => !g.entries.contains id

/-- The batch that a client removes and that is there, while the pass has it in hand. -/
def snatched? (g : Journal W) (a : Act W) : Option BatchId :=
  (g.removed? a).filter fun id => g.inHand?.map Entry.id = some id

/-- A batch is `submitted?` under the id that is `written?`. -/
theorem written_of_submitted (h : g.submitted? a = some id) : a.written? = some id := by
  cases a with
  | client act =>
    cases act with
    | submit id' ms written failure =>
      simp only [submitted?] at h
      split at h
      · exact h
      · simp at h
    | put | remove | flush | compact => simp [submitted?] at h
  | worker | pass | path | control | closePool | clearPool | restart => simp [submitted?] at h

/-- **What an `isOrdinary` act does to the batches,** one constructor for each way that they come
    and go. -/
inductive Deals (g : Journal W) (a : Act W) (g' : Journal W) : Prop where
  /-- A batch is submitted. -/
  | submits {id : BatchId} {e : Entry} (hid : e.id = id) (hwrites : a.written? = some id)
      (hsubmitted : g.submitted? a = some id) (hremoved : g.removed? a = none)
      (hdeleted : g.deleted? a = none) (hentries : g'.entries = g.entries.put e)
      (hheld : g'.inHand? = g.inHand?) (hseen : g'.counters.seen = g.counters.seen + 1)
      (hreplayed : g'.counters.replayed = g.counters.replayed)
  /-- A batch is removed. -/
  | removes {id : BatchId} (hsubmitted : g.submitted? a = none)
      (hremoved : g.removed? a = if g.entries.contains id then some id else none)
      (hdeleted : g.deleted? a = none) (hentries : g'.entries = g.entries.delete id)
      (hheld : g'.inHand? = g.inHand?)
      (hseen : g'.counters.seen = g.counters.seen)
      (hreplayed : g'.counters.replayed = g.counters.replayed)
  /-- The pass deletes the batch that it has in hand. -/
  | deletes {e : Entry} (hsubmitted : g.submitted? a = none) (hremoved : g.removed? a = none)
      (hdeleted : g.deleted? a = some e.id) (hheld : g.inHand? = some e) (hgone : g'.inHand? = none)
      (hentries : g'.entries = g.entries.delete e.id)
      (hseen : g'.counters.seen = g.counters.seen)
      (hreplayed : g'.counters.replayed = g.counters.replayed + 1)
  /-- Nothing. -/
  | aside (hsubmitted : g.submitted? a = none) (hremoved : g.removed? a = none)
      (hdeleted : g.deleted? a = none) (hentries : g'.entries = g.entries)
      (hseen : g'.counters.seen = g.counters.seen)
      (hreplayed : g'.counters.replayed = g.counters.replayed)

/-- A submission that succeeds is counted in `seen`. -/
theorem counters_of_submit {ms : List Mutation} {written : Timestamp} {failure : Option StoreError}
    (hok : (g.submit id ms written failure).1 = .ok e) :
    (g.submit id ms written failure).2.counters
      = { g.counters with seen := g.counters.seen + 1 } := by
  unfold submit at hok ⊢
  split at hok
  · simp at hok
  · rename_i hopen
    rw [if_neg hopen]
    split at hok
    · simp at hok
    · rename_i payload hencode
      rcases hput : g.put ⟨id, written, g.registry.current, payload⟩ failure with ⟨_ | _, g₁⟩
      · simp [hput] at hok
      · obtain ⟨store, rfl⟩ := exists_store_of_onStore hput
        simp only [hput]

/-- `onStore` does not count. -/
theorem counters_onStore (g : Journal W) (failure : Option StoreError) (op : StoreOp) :
    (g.onStore failure op).2.counters = g.counters := by
  cases failure <;> rfl

/-- **Every `isOrdinary` act** is one of these `Deals`. -/
theorem deals_of_step (h : g.store.Sound) (hordinary : a.isOrdinary = true)
    (hstep : g.step a = some g') : g.Deals a g' := by
  cases a with
  | worker act =>
    -- A worker touches neither the entries nor the totals, nor what the pass holds.
    obtain ⟨path, pool, mailbox, strays, rfl, -⟩ := changes_of_workerStep hstep
    exact .aside rfl rfl rfl rfl rfl rfl
  | pass act =>
    rcases pass_cases hstep with ⟨ticket, rfl, hbegin⟩ | ⟨p, hpass, hmove⟩
    · obtain ⟨-, number, throttle, rfl⟩ := begin_cases hbegin
      exact .aside rfl rfl rfl rfl rfl rfl
    · -- A step of a pass deletes the entry that it holds, or leaves the entries alone.
      obtain ⟨hseen, ⟨hnone, hentries, hreplayed⟩
        | ⟨e, dropped, hphase, hdoing, hentries, hreplayed, hgone⟩⟩ :=
        deletes_of_passMove h hpass hmove
      · exact .aside rfl rfl (by simp [deleted?, hnone]) hentries hseen hreplayed
      · have hheld : g.inHand? = some e := by simp [inHand?, hpass, hphase, Phase.held?]
        exact .deletes rfl rfl (by simp [deleted?, hdoing]) hheld hgone hentries hseen hreplayed
  | client act =>
    obtain rfl := Option.some.inj hstep
    -- What the pass holds is not the client's; only the store and one total are.
    have hheld : (g.clientStep act).inHand? = g.inHand? := by
      obtain ⟨store, seen, heq⟩ := g.changes_of_clientStep act
      rw [heq]
      rfl
    -- Flushing and compacting leave the entries as they are, failed or not.
    have hidle : ∀ {failure} (op : StoreOp), (∀ es, op.effect es = es) →
        (g.onStore failure op).2.entries = g.entries := by
      intro failure op hop
      rcases (entries_onStore h failure op).2 with ⟨-, heffect⟩ | ⟨-, hsame⟩
      · rw [heffect, hop]
      · exact hsame
    cases act with
    | submit id ms written failure =>
      obtain ⟨-, ⟨e, hok, -, he, -, hentries⟩ | ⟨err, herror, hentries, hcounters⟩⟩ :=
        submit_cases h id ms written failure
      · have hcounters := counters_of_submit hok
        refine .submits (by rw [he]) rfl ?_ rfl rfl hentries hheld (by rw [clientStep, hcounters])
          (by rw [clientStep, hcounters])
        simp only [submitted?, hok]
        rfl
      · refine .aside ?_ rfl rfl hentries (by rw [clientStep, hcounters])
          (by rw [clientStep, hcounters])
        simp only [submitted?, herror]
        rfl
    | remove id failure =>
      obtain ⟨hanswer, hafter⟩ := g.remove_eq id failure
      have hcounters : (g.clientStep (.remove id failure)).counters = g.counters := by
        rw [clientStep, hafter]
        exact counters_onStore g failure _
      rcases (entries_onStore h failure (.delete id)).2 with ⟨hok, heffect⟩ | ⟨⟨e, herror⟩, hsame⟩
      · refine .removes rfl ?_ rfl (by rw [clientStep, hafter]; exact heffect) hheld
          (by rw [hcounters]) (by rw [hcounters])
        simp only [removed?, hanswer, hok]
        rfl
      · refine .aside rfl ?_ rfl (by rw [clientStep, hafter]; exact hsame)
          (by rw [hcounters]) (by rw [hcounters])
        simp only [removed?, hanswer, herror]
        rfl
    | flush failure =>
      have hafter : (g.flush failure).2 = (g.onStore failure .flush).2 := by
        unfold flush
        split <;> (rename_i hflush; rw [hflush])
      exact .aside rfl rfl rfl (by rw [clientStep, hafter]; exact hidle .flush fun _ => rfl)
        (by rw [clientStep, hafter, counters_onStore]) (by rw [clientStep, hafter, counters_onStore])
    | compact failure =>
      exact .aside rfl rfl rfl (hidle .compact fun _ => rfl)
        (by rw [clientStep, counters_onStore]) (by rw [clientStep, counters_onStore])
    -- An entry put past the journal is of no batch, so these acts are not ordinary.
    | put => simp [Act.isOrdinary] at hordinary
  | path event | closePool =>
    obtain rfl := Option.some.inj hstep
    exact .aside rfl rfl rfl rfl rfl rfl
  | control move =>
    obtain ⟨control, rfl⟩ := control_cases hstep
    exact .aside rfl rfl rfl rfl rfl rfl
  | clearPool =>
    obtain ⟨-, rfl⟩ := clearPool_cases hstep
    exact .aside rfl rfl rfl rfl rfl rfl
  | restart => simp [Act.isOrdinary] at hordinary

/-! ### What came and went -/

/-- The batches that came and went, each list in the order of time. -/
structure Turnover where
  /-- Those that clients submitted. -/
  submitted : List BatchId
  /-- Those that clients removed. -/
  removed : List BatchId
  /-- Those of `removed` that the pass had in hand. -/
  snatched : List BatchId
  /-- Those that the pass deleted and found. -/
  taken : List BatchId
  /-- Those that the pass deleted and did not find. -/
  missed : List BatchId

/-- What comes and goes with an act is added to its list. -/
def Turnover.after (t : Turnover) (g : Journal W) (a : Act W) : Turnover where
  submitted := t.submitted ++ (g.submitted? a).toList
  removed := t.removed ++ (g.removed? a).toList
  snatched := t.snatched ++ (g.snatched? a).toList
  taken := t.taken ++ (g.taken? a).toList
  missed := t.missed ++ (g.missed? a).toList

/-- What comes and goes in a run from `start`. -/
def turnover (start : Journal W) (acts : List (Act W)) : Turnover where
  submitted := start.along submitted? acts
  removed := start.along removed? acts
  snatched := start.along snatched? acts
  taken := start.along taken? acts
  missed := start.along missed? acts

theorem turnover_concat (hrun : start.run acts = some g) (a : Act W) :
    start.turnover (acts ++ [a]) = (start.turnover acts).after g a := by
  simp only [turnover, Turnover.after, along_concat hrun]

variable {t : Turnover}

/-- **Batches are kept together:** `t` tells where they went, and the counters and the store of `g`
    agree. -/
structure Conserved (t : Turnover) (g : Journal W) : Prop where
  /-- Submissions are counted in `seen`. -/
  seen : g.counters.seen = t.submitted.length
  /-- Deletions are counted in `replayed`, whether or not they find anything. -/
  replayed : g.counters.replayed = t.taken.length + t.missed.length
  /-- No batch was submitted twice. -/
  once : t.submitted.Nodup
  /-- What was `submitted` is stored, or was `removed`, or was `taken` out by the pass. -/
  parts : t.submitted.Perm (g.entries.ids ++ t.removed ++ t.taken)
  /-- No batch was deleted twice. -/
  deleted : (t.taken ++ t.missed).Nodup
  /-- What the pass did not find had been removed while the pass had it in hand. -/
  missed : ∀ id ∈ t.missed, id ∈ t.removed ∧ id ∈ t.snatched
  /-- What the pass has in hand was submitted, and the pass has not deleted it; and if it was
      removed, then while the pass had it in hand. -/
  held : ∀ e, g.inHand? = some e →
    e.id ∈ t.submitted ∧ e.id ∉ t.taken ++ t.missed ∧ (e.id ∈ t.removed → e.id ∈ t.snatched)

namespace Conserved

/-- A batch that is stored was neither `removed` nor deleted by the pass. -/
theorem apart (h : Conserved t g) (hstored : id ∈ g.entries.ids) :
    id ∈ t.submitted ∧ id ∉ t.removed ∧ id ∉ t.taken ++ t.missed := by
  obtain ⟨hleft, -, htaken⟩ := List.nodup_append.1 (h.parts.nodup_iff.1 h.once)
  obtain ⟨-, -, hremoved⟩ := List.nodup_append.1 hleft
  have hstays : id ∉ t.removed := fun hmem => hremoved id hstored id hmem rfl
  refine ⟨h.parts.mem_iff.2 (List.mem_append_left _ (List.mem_append_left _ hstored)), hstays,
    fun hmem => ?_⟩
  rcases List.mem_append.1 hmem with hfound | hmissed
  · exact htaken id (List.mem_append_left _ hstored) id hfound rfl
  · exact hstays (h.missed id hmissed).1

/-- A batch that was `submitted` and is gone was `removed`, unless the pass has `taken` it out. -/
theorem removed_of_gone (h : Conserved t g) (hid : id ∈ t.submitted) (hgone : id ∉ g.entries.ids)
    (htaken : id ∉ t.taken) : id ∈ t.removed := by
  rcases List.mem_append.1 (h.parts.mem_iff.1 hid) with hleft | hmem
  · exact (List.mem_append.1 hleft).resolve_left hgone
  · exact absurd hmem htaken

/-- **A batch is submitted** under a fresh id: it goes to `submitted`. -/
theorem submit (h : Conserved t g) (hfresh : e.id ∉ t.submitted)
    (hentries : g'.entries = g.entries.put e) (hheld : g'.inHand? = g.inHand?)
    (hseen : g'.counters.seen = g.counters.seen + 1)
    (hreplayed : g'.counters.replayed = g.counters.replayed) :
    Conserved { t with submitted := t.submitted ++ [e.id] } g' := by
  have hnew : e.id ∉ g.entries.ids := fun hstored => hfresh (h.apart hstored).1
  refine ⟨?_, hreplayed.trans h.replayed, ?_, ?_, h.deleted, h.missed, fun e' he' => ?_⟩
  · rw [hseen, h.seen, List.length_append, List.length_singleton]
  · exact List.nodup_append.2 ⟨h.once, List.nodup_singleton _, fun x hx y hy hxy =>
      hfresh (List.mem_singleton.1 hy ▸ hxy ▸ hx)⟩
  · rw [hentries]
    calc List.Perm (t.submitted ++ [e.id]) (e.id :: t.submitted) := List.perm_append_singleton ..
      List.Perm _ (e.id :: (g.entries.ids ++ t.removed ++ t.taken)) := h.parts.cons e.id
      List.Perm _ ((g.entries.put e).ids ++ t.removed ++ t.taken) :=
        ((Entries.perm_ids_put hnew).symm.append_right t.removed).append_right t.taken
  · obtain ⟨hsubmitted, hrest⟩ := h.held e' (hheld ▸ he')
    exact ⟨List.mem_append_left _ hsubmitted, hrest⟩

/-- **A batch that is stored is removed:** it goes to `removed`, and to `snatched` while the pass
    has it in hand. -/
theorem remove (h : Conserved t g) (hstored : id ∈ g.entries.ids)
    (hentries : g'.entries = g.entries.delete id) (hheld : g'.inHand? = g.inHand?)
    (hseen : g'.counters.seen = g.counters.seen)
    (hreplayed : g'.counters.replayed = g.counters.replayed) {snatched : Option BatchId}
    (hsnatched : g.inHand?.map Entry.id = some id → snatched = some id) :
    Conserved { t with
      removed := t.removed ++ [id], snatched := t.snatched ++ snatched.toList } g' := by
  refine ⟨hseen.trans h.seen, hreplayed.trans h.replayed, h.once, ?_, h.deleted,
    fun id' hid' => (h.missed id' hid').imp (List.mem_append_left _) (List.mem_append_left _),
    fun e he => ?_⟩
  · rw [hentries]
    calc List.Perm t.submitted (g.entries.ids ++ t.removed ++ t.taken) := h.parts
      List.Perm _ (id :: ((g.entries.delete id).ids ++ t.removed ++ t.taken)) :=
        ((Entries.perm_ids_delete hstored).append_right t.removed).append_right t.taken
      List.Perm _ ((g.entries.delete id).ids ++ (t.removed ++ [id]) ++ t.taken) := by
        rw [← List.append_assoc, List.append_assoc _ [id]]
        exact List.perm_middle.symm
  · obtain ⟨hsubmitted, hkept, hremoved⟩ := h.held e (hheld ▸ he)
    refine ⟨hsubmitted, hkept, fun hmem => ?_⟩
    rcases List.mem_append.1 hmem with hbefore | hnow
    · exact List.mem_append_left _ (hremoved hbefore)
    · -- The batch in hand is the one that is removed.
      obtain rfl := List.mem_singleton.1 hnow
      refine List.mem_append_right _ (Option.mem_toList.2 (hsnatched ?_))
      rw [← hheld, he, Option.map_some]

/-- **The pass deletes a batch that is stored:** it goes to `taken`. -/
theorem take (h : Conserved t g) (hheld : g.inHand? = some e) (hstored : e.id ∈ g.entries.ids)
    (hgone : g'.inHand? = none) (hentries : g'.entries = g.entries.delete e.id)
    (hseen : g'.counters.seen = g.counters.seen)
    (hreplayed : g'.counters.replayed = g.counters.replayed + 1) :
    Conserved { t with taken := t.taken ++ [e.id] } g' := by
  obtain ⟨-, hkept, -⟩ := h.held e hheld
  refine ⟨hseen.trans h.seen, ?_, h.once, ?_, ?_, h.missed, fun e' he' => by simp [hgone] at he'⟩
  · show g'.counters.replayed = (t.taken ++ [e.id]).length + t.missed.length
    rw [hreplayed, h.replayed, List.length_append, List.length_singleton]
    omega
  · -- The id moves from the stored ones to those that the pass took.
    rw [hentries]
    calc List.Perm t.submitted (g.entries.ids ++ t.removed ++ t.taken) := h.parts
      List.Perm _ (e.id :: ((g.entries.delete e.id).ids ++ t.removed ++ t.taken)) :=
        ((Entries.perm_ids_delete hstored).append_right t.removed).append_right t.taken
      List.Perm _ ((g.entries.delete e.id).ids ++ t.removed ++ (t.taken ++ [e.id])) := by
        rw [← List.append_assoc]
        exact (List.perm_append_singleton ..).symm
  · rw [List.append_assoc]
    exact List.nodup_middle.2 (List.nodup_cons.2 ⟨hkept, h.deleted⟩)

/-- **The pass deletes a batch that is not stored:** it goes to `missed`, and was in `removed`. -/
theorem miss (h : Conserved t g) (hheld : g.inHand? = some e) (hgone : e.id ∉ g.entries.ids)
    (hlet : g'.inHand? = none) (hentries : g'.entries = g.entries.delete e.id)
    (hseen : g'.counters.seen = g.counters.seen)
    (hreplayed : g'.counters.replayed = g.counters.replayed + 1) :
    Conserved { t with missed := t.missed ++ [e.id] } g' := by
  -- Nothing was stored under the id, so the deletion changes nothing: a client removed it before.
  have hsame : g'.entries = g.entries := by
    rw [hentries]
    exact Entries.delete_of_not_contains (Bool.eq_false_iff.2 (mt Entries.mem_ids_iff.2 hgone))
  obtain ⟨hsubmitted, hkept, hsnatched⟩ := h.held e hheld
  refine ⟨hseen.trans h.seen, ?_, h.once, hsame ▸ h.parts, ?_, fun id hid => ?_,
    fun e' he' => by simp [hlet] at he'⟩
  · rw [hreplayed, h.replayed, List.length_append, List.length_singleton, Nat.add_assoc]
  · rw [← List.append_assoc]
    exact (List.perm_append_singleton ..).nodup_iff.2 (List.nodup_cons.2 ⟨hkept, h.deleted⟩)
  · -- The id is new among those that the pass let go of.
    rcases List.mem_append.1 hid with hbefore | hnow
    · exact h.missed id hbefore
    · rw [List.mem_singleton.1 hnow]
      have hremoved := h.removed_of_gone hsubmitted hgone (mt (List.mem_append_left _) hkept)
      exact ⟨hremoved, hsnatched hremoved⟩

/-- **Every `isOrdinary` act keeps `Conserved`,** if what it submits is new. -/
theorem step (h : Conserved t g) (hsound : g.store.Sound) (hordinary : a.isOrdinary = true)
    (hfresh : ∀ id, a.written? = some id → id ∉ t.submitted) (hstep : g.step a = some g') :
    Conserved (t.after g a) g' := by
  cases deals_of_step hsound hordinary hstep with
  | @submits id e hid hwrites hsubmitted hremoved hdeleted hentries hheld hseen hreplayed =>
    subst hid
    simpa [Turnover.after, snatched?, taken?, missed?, hsubmitted, hremoved, hdeleted]
      using h.submit (hfresh _ hwrites) hentries hheld hseen hreplayed
  | @removes id hsubmitted hremoved hdeleted hentries hheld hseen hreplayed =>
    by_cases hstored : id ∈ g.entries.ids
    · rw [if_pos (Entries.mem_ids_iff.1 hstored)] at hremoved
      have hsnatched : g.inHand?.map Entry.id = some id → g.snatched? a = some id := by
        intro hsame
        simp [snatched?, hremoved, hsame]
      simpa [Turnover.after, taken?, missed?, hsubmitted, hremoved, hdeleted]
        using h.remove hstored hentries hheld hseen hreplayed hsnatched
    · have hnone := mt Entries.mem_ids_iff.2 hstored
      rw [if_neg hnone] at hremoved
      have hsame : g'.entries = g.entries :=
        hentries.trans (Entries.delete_of_not_contains (Bool.eq_false_iff.2 hnone))
      simpa [Turnover.after, snatched?, taken?, missed?, hsubmitted, hremoved, hdeleted]
        using (⟨hseen.trans h.seen, hreplayed.trans h.replayed, h.once, hsame ▸ h.parts, h.deleted,
          h.missed, hheld ▸ h.held⟩ : Conserved t g')
  | @deletes e hsubmitted hremoved hdeleted hheld hgone hentries hseen hreplayed =>
    by_cases hstored : e.id ∈ g.entries.ids
    · have hfound := Entries.mem_ids_iff.1 hstored
      have htaken : g.taken? a = some e.id := by simp [taken?, hdeleted, hfound]
      have hmissed : g.missed? a = none := by simp [missed?, hdeleted, hfound]
      simpa [Turnover.after, snatched?, htaken, hmissed, hsubmitted, hremoved]
        using h.take hheld hstored hgone hentries hseen hreplayed
    · have hnone := Bool.eq_false_iff.2 (mt Entries.mem_ids_iff.2 hstored)
      have htaken : g.taken? a = none := by simp [taken?, hdeleted, hnone]
      have hmissed : g.missed? a = some e.id := by simp [missed?, hdeleted, hnone]
      simpa [Turnover.after, snatched?, htaken, hmissed, hsubmitted, hremoved]
        using h.miss hheld hstored hgone hentries hseen hreplayed
  | aside hsubmitted hremoved hdeleted hentries hseen hreplayed =>
    have hkept : Conserved t g' := by
      refine ⟨hseen.trans h.seen, hreplayed.trans h.replayed, h.once, hentries ▸ h.parts, h.deleted,
        h.missed, fun e he => ?_⟩
      rcases inHand?_of_step hstep he with hbefore | ⟨-, hget⟩
      · exact h.held e hbefore
      · -- What is taken in hand just now is stored.
        obtain ⟨hsubmitted, hremoved, hkept⟩ := h.apart (Entries.mem_ids_of_get? hget)
        exact ⟨hsubmitted, hkept, fun hmem => absurd hmem hremoved⟩
    simpa [Turnover.after, snatched?, taken?, missed?, hsubmitted, hremoved, hdeleted] using hkept

/-- A journal that was just opened over an empty store is `Conserved`: nothing came and nothing
    went. -/
theorem opened {settings : Settings} {registry : Registry} {store : Store} {path : W.State}
    {strays : List Delivery} (hempty : store.entries = .empty) :
    Conserved ⟨[], [], [], [], []⟩ (.opened settings registry store path strays : Journal W) where
  seen := rfl
  replayed := rfl
  once := List.nodup_nil
  parts := by
    rw [Journal.entries, Journal.opened, hempty]
    exact .nil
  deleted := List.nodup_nil
  missed _ h := by simp at h
  held _ h := by simp [inHand?, Journal.opened] at h

/-- **Every run keeps `Conserved`,** if no id is submitted twice. -/
theorem run (hconserved : Conserved (start.turnover []) start) (hsound : start.store.Sound)
    (hordinary : ∀ a ∈ acts, a.isOrdinary = true) (honce : (start.seen acts).Nodup)
    (hrun : start.run acts = some g) : Conserved (start.turnover acts) g := by
  -- An id that is written next is new to the submissions, since these are among the ids written so
  -- far.
  refine (run_induction
    (I := fun acts g => (start.seen acts).Nodup →
      Conserved (start.turnover acts) g ∧ ∀ id ∈ (start.turnover acts).submitted, id ∈ start.seen acts)
    (fun _ => ⟨hconserved, by simp [turnover, along]⟩)
    (fun {earlier g₁ a g₂} ha hearlier hstep ih honce => ?_) hrun honce).1
  rw [seen_concat] at honce ⊢
  rw [turnover_concat hearlier]
  obtain ⟨honce, -, hapart⟩ := List.nodup_append.1 honce
  obtain ⟨hbefore, hknown⟩ := ih honce
  have hfresh : ∀ id, a.written? = some id → id ∉ (start.turnover earlier).submitted :=
    fun id hwritten hid => hapart id (hknown id hid) id (Option.mem_toList.2 hwritten) rfl
  refine ⟨hbefore.step (sound_of_run hsound hearlier) (hordinary a ha) hfresh hstep, fun id hid => ?_⟩
  rcases List.mem_append.1 hid with hearly | hlate
  · exact List.mem_append_left _ (hknown id hearly)
  · exact List.mem_append_right _
      (Option.mem_toList.2 (written_of_submitted (Option.mem_toList.1 hlate)))

end Conserved

/-- **The books on batches:** what `seen` and `replayed` count, and where the batches are. -/
structure Balanced (t : Turnover) (g : Journal W) : Prop where
  /-- `seen` counts the submissions. -/
  seen : g.counters.seen = t.submitted.length
  /-- `replayed` counts what the pass deleted, whether it found it or not, and nothing twice. -/
  replayed : g.counters.replayed = (t.taken ++ t.missed).length ∧ (t.taken ++ t.missed).Nodup
  /-- Every batch was submitted once, and is stored, or was removed, or was taken out by the pass:
      one of these, once. -/
  parts : t.submitted.Nodup ∧ t.submitted.Perm (g.entries.ids ++ t.removed ++ t.taken)
  /-- What the pass did not find had been removed while the pass had it in hand. -/
  missed : ∀ id ∈ t.missed, id ∈ t.removed ∧ id ∈ t.snatched
  /-- What is `missed` is counted beside what is stored, replayed and removed. -/
  balance : g.counters.seen + t.missed.length = g.pending + g.counters.replayed + t.removed.length

theorem Conserved.balanced (h : Conserved t g) : Balanced t g := by
  refine ⟨h.seen, ⟨?_, h.deleted⟩, ⟨h.once, h.parts⟩, h.missed, ?_⟩
  · rw [h.replayed, List.length_append]
  · have hlength : g.entries.ids.length = g.pending := by
      rw [Entries.ids_eq, List.length_map, Entries.length_toList]
      rfl
    have hparts := h.parts.length_eq
    rw [List.length_append, List.length_append, hlength] at hparts
    rw [h.seen, h.replayed, hparts]
    omega

/-- **Batches are conserved.**  Let a journal be opened over an empty store, and let clients submit
    under fresh ids and remove, and passes replay, in any order.  At any time every batch is stored,
    or was removed by a client, or was taken out by a pass, and it is only one of these.  The totals
    count the submissions and the deletions; so the submissions are what is stored, replayed and
    removed if and only if no pass deleted a batch that was not there.  A batch that it deletes and
    that is not there was removed by a client while the pass had it in hand. -/
theorem balanced_of_run {settings : Settings} {registry : Registry} {store : Store}
    {path : W.State} {strays : List Delivery} {medium left : Medium} {directory : String}
    {options : StoreOptions} {warnings : List Warning}
    (hopen : medium.openWith directory options = (.ok (store, warnings), left))
    (hempty : store.entries = .empty) {acts : List (Act W)} {g : Journal W}
    (hordinary : ∀ a ∈ acts, a.isOrdinary = true)
    (honce : ((opened settings registry store path strays : Journal W).seen acts).Nodup)
    (hrun : (opened settings registry store path strays).run acts = some g) :
    let t := (opened settings registry store path strays).turnover acts
    Balanced t g
      ∧ (g.counters.seen = g.pending + g.counters.replayed + t.removed.length ↔ t.missed = []) := by
  intro t
  have hbalanced : Balanced t g :=
    (Conserved.run (Conserved.opened hempty) (Store.sound_of_openWith hopen) hordinary honce
      hrun).balanced
  refine ⟨hbalanced, ?_⟩
  rw [← List.length_eq_zero_iff]
  have hbalance := hbalanced.balance
  omega

/-- A journal over a replica without tables with nothing stored, whose format keeps nothing but the
    number of mutations, to be replayed at once and without a pace. -/
def vacant : Journal replicaPath :=
  opened
    { Settings.standard with replayTimeout := 0, throttleKib := 0, workers := 1, queueDepth := 1 }
    (.single (.counting ⟨0⟩)) (.memory .empty) Replica.empty []

/-- A batch of one mutation is submitted, and a pass delivers it but has not seen that yet. -/
def deliveredOnce : List (Act replicaPath) := [
  .path (.createTable ⟨"toy", "t"⟩), .client (.submit default [⟨⟨"toy", "t"⟩, [0], []⟩] ⟨5⟩ none),
  .control (.board none), .pass (.begin 0), .pass .fetch, .pass (.consider ⟨5⟩), .pass .sort,
  .pass .sort, .pass .offer, .pass .insert, .pass (.rouse none), .pass .offer, .worker (.proceed 0),
  .worker (.apply 0 none), .worker (.report 0)]

/-- The pass deletes it and comes to its end. -/
def deletedOnce : List (Act replicaPath) :=
  [.pass .collect, .pass (.delete none), .pass .fetch, .pass .retire]

/-- Another batch is submitted and removed while the pass is under way: of two batches one was
    removed and one replayed. -/
theorem balanced_of_run_two :
    ∃ other g, vacant.run (deliveredOnce
          ++ [.client (.submit other [] ⟨6⟩ none), .client (.remove other none)] ++ deletedOnce) = some g
      ∧ g.counters.seen = 2 ∧ g.pending = 0 ∧ g.counters.replayed = 1
      ∧ (vacant.turnover (deliveredOnce
          ++ [.client (.submit other [] ⟨6⟩ none), .client (.remove other none)]
          ++ deletedOnce)).removed.length = 1 := by
  -- One batch is submitted, delivered and deleted, another one submitted and removed by its client.
  let other : BatchId := ⟨List.replicate 16 1, rfl⟩
  let acts : List (Act replicaPath) := deliveredOnce
    ++ [.client (.submit other [] ⟨6⟩ none), .client (.remove other none)] ++ deletedOnce
  have hopen : (Medium.memory .empty).openWith "" ⟨.always, .zero, 0, default⟩
      = (.ok (.memory .empty, []), .memory .empty) := rfl
  obtain ⟨g, hrun, hseen, hreplayed, hpending, hmissed⟩ : ∃ g, vacant.run acts = some g
      ∧ g.counters.seen = 2 ∧ g.counters.replayed = 1 ∧ g.pending = 0
      ∧ (vacant.turnover acts).missed = [] := ⟨_, rfl, rfl, rfl, rfl, rfl⟩
  obtain ⟨-, hbalance⟩ := balanced_of_run hopen rfl
    (fun a ha => List.all_eq_true.1 (show acts.all Act.isOrdinary = true from rfl) a ha)
    (show (vacant.seen acts).Nodup by decide) hrun
  have hsum := hbalance.2 hmissed
  refine ⟨other, g, hrun, hseen, hpending, hreplayed, ?_⟩
  rw [hseen, hpending, hreplayed] at hsum
  exact (Nat.add_left_cancel hsum).symm

/-- **A batch can be counted as replayed though it was removed:** a client removes the one batch
    after it was delivered and before the pass deletes it.  Nothing is stored, one batch was
    submitted, and one removed, and one is counted as replayed; but no pass has taken anything
    out. -/
theorem counted_though_removed :
    ∃ g, vacant.run (deliveredOnce ++ [.client (.remove default none)] ++ deletedOnce) = some g
      ∧ g.pass.isNone = true ∧ g.pending = 0
      ∧ g.counters.seen = 1 ∧ g.counters.replayed = 1
      ∧ (vacant.turnover
          (deliveredOnce ++ [.client (.remove default none)] ++ deletedOnce)).removed = [default]
      ∧ (vacant.turnover
          (deliveredOnce ++ [.client (.remove default none)] ++ deletedOnce)).taken = [] :=
  ⟨_, rfl, rfl, rfl, rfl, rfl, rfl, rfl⟩

end Journal

end BatchJournal
