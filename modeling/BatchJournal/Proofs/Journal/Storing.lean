import BatchJournal.Proofs.Journal.WrittenOnce

namespace BatchJournal

/-!
# What is done to the store

An act does at most one thing to what is stored, and only if it succeeds.  So whatever is stored was
put there by some act, and what nobody overwrites or takes out stays, also when the process dies and
the journal is opened again.

* `Journal.doing?`, `Journal.effect_of_step` — what an act does to what is stored.
* `Journal.submit_cases` — a submission puts one entry or leaves everything as it is.
* `Journal.deletes_of_passMove` — the pass deletes the entry in hand, or leaves everything stored.
* `Journal.Under` — all that stands under an id, stored or in the hands of the pass.
* `Journal.stored_of_run` — what is not taken out stays.
* `Journal.OnDisk` — a journal with a log stays one, and all its entries fit into records.
-/

namespace Journal

variable {W : WritePath} {start g g' : Journal W} {acts : List (Act W)} {a : Act W} {e : Entry}

/-! ### One act -/

/-- **What an act does to what is stored,** if it succeeds; or the operation that the process dies
    in. -/
def doing? (g : Journal W) : Act W → Option StoreOp
  | .client (.submit id ms written failure) =>
    match (g.submit id ms written failure).1 with
    | .ok e => some (.put e)
    | .error _ => none
  | .client (.put e failure) => if (g.put e failure).1.isOk then some (.put e) else none
  | .client (.remove id failure) => if (g.remove id failure).1.isOk then some (.delete id) else none
  | .pass (.delete failure) =>
    match g.pass.map Pass.phase with
    | some (.deleting e _) =>
      if (g.onStore failure (.delete e.id)).1.isOk then some (.delete e.id) else none
    | _ => none
  | .restart _ (.diedIn op _ _) => some op
  | _ => none

/-- **`submit`** is one operation of the store. -/
theorem submit_cases (h : g.store.Sound) (id : BatchId) (ms : List Mutation) (written : Timestamp)
    (failure : Option StoreError) :
    (g.submit id ms written failure).2.store.Sound
      ∧ ((∃ e, (g.submit id ms written failure).1 = .ok e
            ∧ g.registry.encode g.registry.current ms = .ok e.payload
            ∧ e = ⟨id, written, g.registry.current, e.payload⟩
            ∧ (g.put e failure).1 = .ok ()
            ∧ (g.submit id ms written failure).2.entries = g.entries.put e)
          ∨ ∃ err, (g.submit id ms written failure).1 = .error err
            ∧ (g.submit id ms written failure).2.entries = g.entries
            ∧ (g.submit id ms written failure).2.counters = g.counters) := by
  -- Closed, not to be encoded, not to be stored, or stored: in this order `submit` looks.
  cases hclosed : g.closed with
  | true =>
    have hsubmit : g.submit id ms written failure = (.error .shutDown, g) := by
      rw [submit, if_pos hclosed]
    rw [hsubmit]
    exact ⟨h, .inr ⟨_, rfl, rfl, rfl⟩⟩
  | false =>
    cases hencode : g.registry.encode g.registry.current ms with
    | error err =>
      have hsubmit : g.submit id ms written failure = (.error (.codec err), g) := by
        rw [submit, if_neg (Bool.eq_false_iff.1 hclosed), hencode]
      rw [hsubmit]
      exact ⟨h, .inr ⟨_, rfl, rfl, rfl⟩⟩
    | ok payload =>
      rcases hput : g.put ⟨id, written, g.registry.current, payload⟩ failure with ⟨_ | _, g₁⟩
      · -- The put failed; by `entries_of_onStore_error` it left the entries alone.
        rename_i err
        have hsubmit : g.submit id ms written failure = (.error (.store err), g₁) := by
          rw [submit, if_neg (Bool.eq_false_iff.1 hclosed), hencode]
          simp only [hput]
        obtain ⟨store, rfl⟩ := exists_store_of_onStore hput
        obtain ⟨hsound, hentries⟩ := entries_of_onStore_error h hput
        rw [hsubmit]
        exact ⟨hsound, .inr ⟨_, rfl, hentries, rfl⟩⟩
      · have hsubmit : g.submit id ms written failure
            = (.ok ⟨id, written, g.registry.current, payload⟩,
              { g₁ with counters := { g₁.counters with seen := g₁.counters.seen + 1 } }) := by
          rw [submit, if_neg (Bool.eq_false_iff.1 hclosed), hencode]
          simp only [hput]
        obtain ⟨hsound, hentries⟩ := entries_of_onStore h hput
        rw [hsubmit]
        exact ⟨hsound, .inl ⟨_, rfl, rfl, rfl, by rw [hput], hentries⟩⟩

/-- **`remove`** is one operation of the store. -/
theorem remove_eq (g : Journal W) (id : BatchId) (failure : Option StoreError) :
    (g.remove id failure).1.isOk = (g.onStore failure (.delete id)).1.isOk
      ∧ (g.remove id failure).2 = (g.onStore failure (.delete id)).2 := by
  unfold remove
  split <;> (rename_i hdelete; rw [hdelete]; exact ⟨rfl, rfl⟩)

/-- **What an act does to the store** is nothing or one `onStore`, which is done if it succeeds; or
    the journal is opened again. -/
theorem store_of_step (hstep : g.step a = some g') :
    g'.store = g.store
      ∨ (∃ failure op, g'.store = (g.onStore failure op).2.store
          ∧ ((∀ es, op.effect es = es)
            ∨ ((g.onStore failure op).1.isOk = true → g.doing? a = some op)))
      ∨ ∃ directory ending, a = .restart directory ending := by
  cases a with
  | worker act => exact .inl (beside_of_workerStep hstep).store
  | pass act =>
    rcases pass_cases hstep with ⟨ticket, rfl, hbegin⟩ | ⟨p, hpass, hmove⟩
    · obtain ⟨-, number, throttle, rfl⟩ := begin_cases hbegin
      exact .inl rfl
    · -- Of the moves of a pass only the deletion of a finished entry comes to the store.
      cases hmove with
      | deleted hphase hdelete | undeleted hphase hdelete =>
        refine .inr (.inl ⟨_, _, by rw [hdelete]; rfl, .inr fun hok => ?_⟩)
        simp [doing?, hpass, hphase, hok]
      | _ => exact .inl rfl
  | client act =>
    obtain rfl := Option.some.inj hstep
    cases act with
    | submit id ms written failure =>
      simp only [clientStep, submit, doing?]
      -- After the shutdown, or without a payload, a submission does not come to the store.
      split
      · exact .inl rfl
      · split
        · exact .inl rfl
        · rename_i payload _
          simp only [put]
          rcases hput : g.onStore failure (.put ⟨id, written, g.registry.current, payload⟩)
            with ⟨_ | _, g₁⟩
          · exact .inr (.inl ⟨failure, _, by rw [hput], .inr fun hok =>
              absurd hok (by rw [hput]; exact Bool.false_ne_true)⟩)
          · exact .inr (.inl ⟨failure, _, by rw [hput], .inr fun _ => rfl⟩)
    | put e failure => exact .inr (.inl ⟨failure, .put e, rfl, .inr fun hok => if_pos hok⟩)
    | remove id failure =>
      obtain ⟨hanswer, hafter⟩ := g.remove_eq id failure
      refine .inr (.inl ⟨failure, .delete id, by rw [clientStep, hafter], .inr fun hok => ?_⟩)
      simp only [doing?, hanswer]
      exact if_pos hok
    | flush failure =>
      refine .inr (.inl ⟨failure, .flush, ?_, .inl fun _ => rfl⟩)
      simp only [clientStep, flush]
      split <;> (rename_i hflush; rw [hflush])
    | compact failure => exact .inr (.inl ⟨failure, .compact, rfl, .inl fun _ => rfl⟩)
  | path event =>
    obtain rfl := Option.some.inj hstep
    exact .inl rfl
  | control move =>
    obtain ⟨control, rfl⟩ := control_cases hstep
    exact .inl rfl
  | closePool =>
    obtain rfl := Option.some.inj hstep
    exact .inl rfl
  | clearPool =>
    obtain ⟨-, rfl⟩ := clearPool_cases hstep
    exact .inl rfl
  | restart directory ending => exact .inr (.inr ⟨directory, ending, rfl⟩)

/-- **What happens to the entries** is the effect of `doing?`. -/
theorem effect_of_step (h : g.store.Sound) (hstep : g.step a = some g') :
    g'.store.Sound
      ∧ (g'.entries = g.entries
        ∨ ∃ op, g.doing? a = some op ∧ g'.entries = op.effect g.entries) := by
  rcases store_of_step hstep with hsame | ⟨failure, op, hstore, hdoing⟩ | ⟨directory, ending, rfl⟩
  · rw [entries, entries, hsame]
    exact ⟨h, .inl rfl⟩
  · -- The operation succeeded and did what the act does, or it failed and did nothing.
    obtain ⟨hsound, hentries⟩ := entries_onStore h failure op
    have hafter : g'.entries = (g.onStore failure op).2.entries := by
      rw [entries, hstore]
      rfl
    rw [hafter, hstore]
    refine ⟨hsound, ?_⟩
    rcases hentries with ⟨hok, heffect⟩ | ⟨-, hsame⟩
    · rcases hdoing with hidle | hdoing
      · exact .inl (heffect.trans (hidle _))
      · exact .inr ⟨op, hdoing (by rw [hok]; rfl), heffect⟩
    · exact .inl hsame
  · obtain ⟨hsound, hentries⟩ := entries_of_restart h hstep
    rcases hentries with hentries | ⟨op, effects, kept, rfl, hentries⟩
    · exact ⟨hsound, .inl hentries⟩
    · exact ⟨hsound, .inr ⟨op, rfl, hentries⟩⟩

/-- **What the pass does to what is stored:** nothing; or it deletes the entry that it has in hand,
    counts it in `replayed` and lets go of it. -/
theorem deletes_of_passMove {p : Pass} {act : PassAct} (h : g.store.Sound)
    (hpass : g.pass = some p) (hmove : g.PassMove p act g') :
    g'.counters.seen = g.counters.seen
      ∧ ((g.doing? (.pass act) = none ∧ g'.entries = g.entries
            ∧ g'.counters.replayed = g.counters.replayed)
          ∨ ∃ e dropped, p.phase = .deleting e dropped
            ∧ g.doing? (.pass act) = some (.delete e.id) ∧ g'.entries = g.entries.delete e.id
            ∧ g'.counters.replayed = g.counters.replayed + 1 ∧ g'.inHand? = none) := by
  -- Only the deletion of the entry in hand changes what is stored.
  cases hmove with
  | @deleted e dropped failure g₁ hphase hdelete =>
    obtain ⟨-, hentries⟩ := entries_of_onStore h hdelete
    obtain ⟨store, rfl⟩ := exists_store_of_onStore hdelete
    refine ⟨rfl, .inr ⟨e, dropped, hphase, ?_, hentries, rfl, rfl⟩⟩
    simp [doing?, hpass, hphase, hdelete, Except.isOk, Except.toBool]
  | undeleted hphase hdelete =>
    obtain ⟨-, hentries⟩ := entries_of_onStore_error h hdelete
    obtain ⟨store, rfl⟩ := exists_store_of_onStore hdelete
    refine ⟨rfl, .inl ⟨?_, hentries, rfl⟩⟩
    simp [doing?, hpass, hphase, hdelete, Except.isOk, Except.toBool]
  | _ => exact ⟨rfl, .inl ⟨rfl, rfl, rfl⟩⟩

/-- **What an act is `doing?` is done,** unless the process dies in it. -/
theorem entries_of_doing {op : StoreOp} (h : g.store.Sound) (hstep : g.step a = some g')
    (hdoing : g.doing? a = some op) (hlives : ∀ directory ending, a ≠ .restart directory ending) :
    g'.entries = op.effect g.entries := by
  -- An act that counts as doing an operation has succeeded in it.
  have hdone : ∀ {failure op}, (g.onStore failure op).1.isOk = true →
      (g.onStore failure op).2.entries = op.effect g.entries := by
    intro failure op hok
    rcases (entries_onStore h failure op).2 with ⟨-, heffect⟩ | ⟨⟨e, herror⟩, -⟩
    · exact heffect
    · simp [herror, Except.isOk, Except.toBool] at hok
  cases a with
  | client act =>
    obtain rfl := Option.some.inj hstep
    cases act with
    | submit id ms written failure =>
      obtain ⟨-, ⟨e, hok, -, -, -, hentries⟩ | ⟨err, herror, -⟩⟩ :=
        submit_cases h id ms written failure
      · simp only [doing?, hok, Option.some.injEq] at hdoing
        rw [← hdoing]
        exact hentries
      · simp [doing?, herror] at hdoing
    | put e failure =>
      simp only [doing?] at hdoing
      split at hdoing
      · rename_i hok
        rw [← Option.some.inj hdoing]
        exact hdone hok
      · simp at hdoing
    | remove id failure =>
      obtain ⟨hok, hafter⟩ := g.remove_eq id failure
      simp only [doing?, hok] at hdoing
      split at hdoing
      · rename_i hok
        rw [← Option.some.inj hdoing, clientStep, hafter]
        exact hdone hok
      · simp at hdoing
    | flush | compact => simp [doing?] at hdoing
  | pass act =>
    rcases pass_cases hstep with ⟨ticket, rfl, -⟩ | ⟨p, hpass, hmove⟩
    · simp [doing?] at hdoing
    · obtain ⟨-, ⟨hnone, -⟩ | ⟨e, dropped, -, hdelete, hentries, -⟩⟩ :=
        deletes_of_passMove h hpass hmove
      · simp [hnone] at hdoing
      · rw [← Option.some.inj (hdelete.symm.trans hdoing)]
        exact hentries
  | restart directory ending => exact absurd rfl (hlives directory ending)
  | worker | path | control | closePool | clearPool => simp [doing?] at hdoing

/-- **What is stored after an act** was stored before, or the act is `doing?` its `put` just now. -/
theorem stored_of_step (h : g.store.Sound) (hstep : g.step a = some g') {id : BatchId}
    (hget : g'.entries.get? id = some e) :
    g.entries.get? id = some e ∨ g.doing? a = some (.put e) ∧ e.id = id := by
  obtain ⟨-, hsame | ⟨op, hdoing, heffect⟩⟩ := effect_of_step h hstep
  · exact .inl (hsame ▸ hget)
  · rw [heffect] at hget
    -- What is stored under the id was stored before, or the act has put it.
    cases op with
    | put e' =>
      simp only [StoreOp.effect, Entries.get?_put] at hget
      split at hget
      · rename_i hid
        obtain rfl := Option.some.inj hget
        exact .inr ⟨hdoing, hid.symm⟩
      · exact .inl hget
    | delete id' =>
      simp only [StoreOp.effect, Entries.get?_delete] at hget
      split at hget
      · simp at hget
      · exact .inl hget
    | flush | compact => exact .inl hget

end Journal

/-- The entry that an act puts into the store, whether or not the store takes it. -/
def Act.entry? {W : WritePath} (registry : Registry) : Act W → Option Entry
  | .client (.submit id ms written _) =>
    match registry.encode registry.current ms with
    | .ok payload => some ⟨id, written, registry.current, payload⟩
    | .error _ => none
  | .client (.put e _) => some e
  | .restart _ (.diedIn (.put e) _ _) => some e
  | _ => none

/-- The id of `entry?` is `written?`. -/
theorem Act.written?_of_entry? {W : WritePath} {registry : Registry} {a : Act W} {e : Entry}
    (h : a.entry? registry = some e) : a.written? = some e.id := by
  unfold Act.entry? at h
  split at h
  · split at h
    · obtain rfl := Option.some.inj h
      rfl
    · simp at h
  · obtain rfl := Option.some.inj h
    rfl
  · obtain rfl := Option.some.inj h
    rfl
  · simp at h

namespace Journal

variable {W : WritePath} {start g g' : Journal W} {acts : List (Act W)} {a : Act W} {e : Entry}

/-- An act that is `doing?` a `put` has the entry as its `entry?`. -/
theorem entry?_of_doing? (h : g.store.Sound) (hdoing : g.doing? a = some (.put e)) :
    a.entry? g.registry = some e := by
  unfold doing? at hdoing
  -- One case for each kind of act that can put anything.
  split at hdoing
  · rename_i id ms written failure
    obtain ⟨-, ⟨e', hok, hencode, he, -⟩ | ⟨err, herror, -⟩⟩ := submit_cases h id ms written failure
    · simp only [hok, Option.some.injEq, StoreOp.put.injEq] at hdoing
      subst hdoing
      simp only [Act.entry?, hencode]
      rw [← he]
    · simp [herror] at hdoing
  · split at hdoing
    · exact congrArg some (StoreOp.put.inj (Option.some.inj hdoing))
    · simp at hdoing
  · split at hdoing <;> simp at hdoing
  · split at hdoing
    · split at hdoing <;> simp at hdoing
    · simp at hdoing
  · obtain rfl := Option.some.inj hdoing
    rfl
  · simp at hdoing

/-- **What was stored before an act** still is, unless its id is `written?` or deleted. -/
theorem stored_of_not_doing (h : g.store.Sound) (hstep : g.step a = some g') {id : BatchId}
    (hget : g.entries.get? id = some e) (hother : a.written? ≠ some id)
    (hkept : g.doing? a ≠ some (.delete id)) : g'.entries.get? id = some e := by
  obtain ⟨-, hsame | ⟨op, hdoing, heffect⟩⟩ := effect_of_step h hstep
  · rwa [hsame]
  · rw [heffect]
    cases op with
    | put e' =>
      have hne : id ≠ e'.id := fun hid =>
        hother (hid ▸ Act.written?_of_entry? (entry?_of_doing? h hdoing))
      simpa only [StoreOp.effect, Entries.get?_put, if_neg hne] using hget
    | delete id' =>
      have hne : id ≠ id' := fun hid => hkept (hid ▸ hdoing)
      simpa only [StoreOp.effect, Entries.get?_delete, if_neg hne] using hget
    | flush | compact => exact hget

/-- **What is not deleted stays,** as long as no act has its id as `written?`. -/
theorem stored_of_run (h : start.store.Sound) {id : BatchId}
    (hget : start.entries.get? id = some e) (hother : ∀ a ∈ acts, a.written? ≠ some id)
    (hkept : .delete id ∉ start.along doing? acts) (hrun : start.run acts = some g) :
    g.entries.get? id = some e := by
  refine run_induction
    (I := fun acts g => .delete id ∉ start.along doing? acts → g.entries.get? id = some e)
    (fun _ => hget) (fun {earlier g₁ a g₂} ha hearlier hstep ih hkept => ?_) hrun hkept
  rw [along_concat hearlier, List.mem_append, not_or, Option.mem_toList] at hkept
  exact stored_of_not_doing (sound_of_run h hearlier) hstep (ih hkept.1) (hother a ha) hkept.2

/-! ### Under one id -/

/-- **All that stands under `id`,** stored or in the hands of the pass, has `P`. -/
structure Under (id : BatchId) (P : Entry → Prop) (g : Journal W) : Prop where
  /-- The store is sound. -/
  sound : g.store.Sound
  /-- What is stored there has `P`. -/
  stored : ∀ e, g.entries.get? id = some e → P e
  /-- So is what the pass has in hand. -/
  held : ∀ e, g.inHand? = some e → e.id = id → P e

variable {id : BatchId} {P : Entry → Prop}

/-- An act that does not write `id` keeps `Under`. -/
theorem Under.step (h : g.Under id P) (hother : a.written? ≠ some id) (hstep : g.step a = some g') :
    g'.Under id P := by
  obtain ⟨hsound, hentries⟩ := entries_of_step h.sound hstep
  refine ⟨hsound, fun e he => ?_, fun e he hid => ?_⟩
  · -- What an operation puts under the id was written by the act.
    rcases hentries with hsame | ⟨op, hwritten, heffect⟩
    · exact h.stored e (hsame ▸ he)
    · rw [heffect] at he
      rcases get?_of_effect he with hid | hbefore
      · exact absurd (hwritten id hid) hother
      · exact h.stored e hbefore
  · rcases inHand?_of_step hstep he with hheld | ⟨-, hget⟩
    · exact h.held e hheld hid
    · exact h.stored e (hid ▸ hget)

/-- A run that does not write `id` keeps `Under`. -/
theorem Under.run (h : start.Under id P) (hother : ∀ a ∈ acts, a.written? ≠ some id)
    (hrun : start.run acts = some g) : g.Under id P :=
  run_induction (I := fun _ g => g.Under id P) h
    (fun ha _ hstep hunder => hunder.step (hother _ ha) hstep) hrun

/-- An id is not in `seen` if it was neither stored at the start nor written since. -/
theorem not_mem_seen_iff :
    id ∉ start.seen acts ↔ id ∉ start.entries.ids ∧ ∀ a ∈ acts, a.written? ≠ some id := by
  simp only [seen, List.mem_append, List.mem_filterMap, not_or, not_exists, not_and]

/-- Under an id that is not stored there is nothing when a journal is opened. -/
theorem under_of_not_stored (hsound : g.store.Sound) (hnew : g.pass = none)
    (hfresh : id ∉ g.entries.ids) : g.Under id fun _ => False :=
  ⟨hsound, fun e he => hfresh (Entries.mem_ids_of_get? he), fun e he => by simp [inHand?, hnew] at he⟩

/-- **A submission** under a fresh id puts its entry there and nothing else. -/
theorem under_of_submit {ms : List Mutation} {written : Timestamp} {failure : Option StoreError}
    (h : g.Under id fun _ => False) (hsubmit : g.submit id ms written failure = (.ok e, g')) :
    g'.Under id (· = e) ∧ g'.entries.get? id = some e := by
  obtain ⟨hsound, ⟨e', hok, -, he, -, hentries⟩ | ⟨err, herror, -⟩⟩ :=
    submit_cases h.sound id ms written failure
  · rw [hsubmit] at hok hentries hsound
    obtain rfl := Except.ok.inj hok
    have hid : e.id = id := by rw [he]
    have hget (id' : BatchId) :
        g'.entries.get? id' = if id' = id then some e else g.entries.get? id' := by
      rw [← hid]
      exact (congrArg (·.get? id') hentries).trans (Entries.get?_put _ _ _)
    -- What the pass holds is not changed by a client.
    have hpass : g'.inHand? = g.inHand? := by
      obtain ⟨store, seen, heq⟩ := g.changes_of_clientStep (.submit id ms written failure)
      rw [clientStep, hsubmit] at heq
      rw [show g' = _ from heq]
      rfl
    refine ⟨⟨hsound, fun e' he' => ?_, fun e' he' hid' => ?_⟩, by rw [hget, if_pos rfl]⟩
    · rw [hget, if_pos rfl] at he'
      exact (Option.some.inj he').symm
    · exact (h.held e' (hpass ▸ he') hid').elim
  · rw [hsubmit] at herror
    simp at herror

/-! ### Journals on a disk -/

/-- The journal keeps its entries in a log. -/
def OnDisk (g : Journal W) : Prop := ∃ l d, g.store = .logged l d

/-- **Whatever is stored in a log** `Fits` into a record. -/
theorem fits_of_get? (h : g.store.Sound) (hdisk : g.OnDisk) (hget : g.entries.get? id = some e) :
    (Record.put e).Fits := by
  obtain ⟨l, d, hstore⟩ := hdisk
  rw [hstore] at h
  obtain ⟨rs, hstep⟩ := h
  have hget' : l.entries.get? id = some e := by
    rwa [entries, hstore] at hget
  have hid : e.id = id := l.entries.keyed id e hget'
  exact hstep.fits _ (List.mem_map_of_mem (Entries.mem_toList_iff.2 (hid ▸ hget')))

theorem OnDisk.onStore (h : g.OnDisk) (failure : Option StoreError) (op : StoreOp) :
    (g.onStore failure op).2.OnDisk := by
  cases failure with
  | some e => exact h
  | none =>
    obtain ⟨l, d, hstore⟩ := h
    exact ⟨_, _, by rw [Journal.onStore, hstore]; rfl⟩

/-- A store that is opened on a disk has a log. -/
theorem logged_of_openWith {found : Disk} {directory : String} {options : StoreOptions}
    {store : Store} {warnings : List Warning} {left : Medium}
    (h : (Medium.disk found).openWith directory options = (.ok (store, warnings), left)) :
    ∃ l d, store = .logged l d := by
  simp only [Medium.openWith] at h
  split at h
  · obtain ⟨hs, -⟩ := Prod.mk.inj h
    obtain ⟨rfl, -⟩ := Prod.mk.inj (Except.ok.inj hs)
    exact ⟨_, _, rfl⟩
  · simp at h

theorem onDisk_of_onMedium {settings : Settings} {registry : Registry} {directory : String}
    {found : Disk} {path : W.State} {strays : List Delivery}
    (h : (onMedium settings registry directory (.disk found) path strays).1 = .ok g) :
    g.OnDisk := by
  simp only [onMedium] at h
  split at h
  · simp at h
  · split at h
    · simp at h
    · rename_i store warnings left hopen
      obtain ⟨-, rfl⟩ := overStore_eq_ok h
      exact logged_of_openWith hopen

/-- **Every act keeps `OnDisk`.** -/
theorem OnDisk.step (h : g.OnDisk) (hstep : g.step a = some g') : g'.OnDisk := by
  rcases store_of_step hstep with hsame | ⟨failure, op, hstore, -⟩ | ⟨directory, ending, rfl⟩
  · rwa [OnDisk, hsame]
  · rw [OnDisk, hstore]
    exact h.onStore failure op
  · obtain ⟨l, d, hstore⟩ := h
    -- Whatever the end, what is left of a log is a disk.
    have hmedium : ∃ d', g.medium ending = .disk d' := by
      cases ending <;> simp only [medium, hstore] <;> exact ⟨_, rfl⟩
    obtain ⟨d', hmedium⟩ := hmedium
    simp only [Journal.step] at hstep
    split at hstep
    · split at hstep
      · rename_i g₁ hrestart
        obtain rfl := Option.some.inj hstep
        rw [restart, hmedium] at hrestart
        exact onDisk_of_onMedium hrestart
      · simp at hstep
    · simp at hstep

theorem OnDisk.run (h : start.OnDisk) (hrun : start.run acts = some g) : g.OnDisk :=
  run_keeps (I := OnDisk) OnDisk.step h hrun

end Journal

end BatchJournal
