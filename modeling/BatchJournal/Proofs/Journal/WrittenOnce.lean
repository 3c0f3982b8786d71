import BatchJournal.Proofs.Journal.PassMoves
import BatchJournal.Proofs.Store.CrashRecovery
import Mathlib.Data.List.Induction

namespace BatchJournal

/-!
# Entries whose ids are written once

A pass has an entry in hand while others use the store.  As every batch is stored under an id of its
own, the entry that stands under the id of the one in hand can only be that one.

* `Journal.entries_onStore` — an operation of the store has its effect on the entries or none.
* `Journal.entries_of_restart` — a journal that is opened again has the entries it had, with the
  operation that its process died in or without it.
* `Journal.stored_eq_of_inHand` — what is stored under the id of an entry in hand is that entry.
-/

/-- The entry that a pass has in hand, from `fetched` to `failed`. -/
def Phase.held? : Phase → Option Entry
  | .fetched e | .pacing e _ | .resting e _ | .sorting e _ _ _ | .offering e _ _ _
  | .inserting e _ _ _ _ | .rousing e _ _ _ | .collecting e _ _ | .deleting e _
  | .failed e _ => some e
  | .between | .finished _ => none

/-- The id that a `put` writes. -/
def StoreOp.written? : StoreOp → Option BatchId
  | .put e => some e.id
  | _ => none

/-- The id that an act writes; so may the operation that a process dies in. -/
def Act.written? {W : WritePath} : Act W → Option BatchId
  | .client (.submit id _ _ _) => some id
  | .client (.put e _) => some e.id
  | .restart _ (.diedIn op _ _) => op.written?
  | _ => none

namespace Journal

variable {W : WritePath} {start g g' : Journal W} {acts : List (Act W)} {a : Act W} {p : Pass}

/-! ### Entries under an operation -/

/-- An operation of a sound store has its `effect` on the entries just if it succeeds. -/
theorem entries_onStore (h : g.store.Sound) (failure : Option StoreError) (op : StoreOp) :
    (g.onStore failure op).2.store.Sound
      ∧ ((g.onStore failure op).1 = .ok () ∧ (g.onStore failure op).2.entries = op.effect g.entries
        ∨ (∃ e, (g.onStore failure op).1 = .error e)
          ∧ (g.onStore failure op).2.entries = g.entries) := by
  cases failure with
  | some e => exact ⟨h, .inr ⟨⟨e, rfl⟩, rfl⟩⟩
  | none =>
    obtain ⟨hsound, hentries⟩ := Store.perform_sound h op
    refine ⟨hsound, ?_⟩
    have hanswer : (g.onStore none op).1 = (g.store.perform op).1 := rfl
    have hafter : (g.onStore none op).2.entries = (g.store.perform op).2.entries := rfl
    rw [hanswer, hafter, hentries]
    cases hresult : (g.store.perform op).1 with
    | ok u => exact .inl ⟨rfl, rfl⟩
    | error e => exact .inr ⟨⟨e, rfl⟩, rfl⟩

/-- An operation that succeeds has its `effect`. -/
theorem entries_of_onStore (h : g.store.Sound) {failure : Option StoreError} {op : StoreOp}
    (hstep : g.onStore failure op = (.ok (), g')) :
    g'.store.Sound ∧ g'.entries = op.effect g.entries := by
  obtain ⟨hsound, hentries⟩ := entries_onStore h failure op
  rw [hstep] at hsound hentries
  rcases hentries with ⟨-, heffect⟩ | ⟨⟨e, herror⟩, -⟩
  · exact ⟨hsound, heffect⟩
  · simp at herror

/-- An operation that fails has none. -/
theorem entries_of_onStore_error (h : g.store.Sound) {failure : Option StoreError} {op : StoreOp}
    {err : StoreError} (hstep : g.onStore failure op = (.error err, g')) :
    g'.store.Sound ∧ g'.entries = g.entries := by
  obtain ⟨hsound, hentries⟩ := entries_onStore h failure op
  rw [hstep] at hsound hentries
  rcases hentries with ⟨hok, -⟩ | ⟨-, hsame⟩
  · simp at hok
  · exact ⟨hsound, hsame⟩

/-- A medium that `recovers` entries gives them to a journal that is opened on it. -/
theorem onMedium_entries {settings : Settings} {registry : Registry} {directory : String}
    {medium : Medium} {path : W.State} {strays : List Delivery} {es : Entries}
    (hrecovers : medium.Recovers es)
    (h : (onMedium settings registry directory medium path strays).1 = .ok g) :
    g.store.Sound ∧ g.entries = es := by
  -- In memory no option matters; on a disk the options are those of the settings.
  cases medium with
  | memory es' =>
    obtain ⟨s, warnings, m', hopen, hentries⟩ := hrecovers directory ⟨.always, .zero, 0, default⟩
    obtain ⟨-, rfl⟩ := overStore_eq_ok h
    obtain ⟨hs, -⟩ := Prod.mk.inj hopen
    obtain ⟨rfl, -⟩ := Prod.mk.inj (Except.ok.inj hs)
    exact ⟨trivial, hentries⟩
  | disk d =>
    simp only [onMedium] at h
    split at h
    · simp at h
    · rename_i options hoptions
      obtain ⟨s, warnings, m', hopen, hentries⟩ := hrecovers directory options
      rw [hopen] at h
      obtain ⟨-, rfl⟩ := overStore_eq_ok h
      exact ⟨Store.sound_of_openWith hopen, hentries⟩

/-- **A journal that is opened again** has the entries it had, with the operation that its process
    died in or without it. -/
theorem entries_of_restart (h : g.store.Sound) {directory : String} {ending : Ending}
    (hstep : g.step (.restart directory ending) = some g') :
    g'.store.Sound ∧ (g'.entries = g.entries
      ∨ ∃ op effects kept, ending = .diedIn op effects kept ∧ g'.entries = op.effect g.entries) := by
  simp only [step] at hstep
  split at hstep
  · split at hstep
    · rename_i g₁ hrestart
      obtain rfl := Option.some.inj hstep
      -- A closed store and one whose process died between operations keep the entries; in an
      -- operation it may have had its effect or not.
      cases ending with
      | closed =>
        have hrecovers : g.store.close.Recovers g.entries := by
          intro directory options
          obtain ⟨s', warnings, m', heq, -, hentries⟩ :=
            Store.reopen_sound h true directory options
          exact ⟨s', warnings, m', heq, hentries⟩
        obtain ⟨hsound, hentries⟩ := onMedium_entries hrecovers hrestart
        exact ⟨hsound, .inl hentries⟩
      | died =>
        obtain ⟨hsound, hentries⟩ := onMedium_entries (Store.crash_recovers h) hrestart
        exact ⟨hsound, .inl hentries⟩
      | diedIn op effects kept =>
        rcases Store.crashIn_recovers h op effects kept with hrecovers | hrecovers
        · obtain ⟨hsound, hentries⟩ := onMedium_entries hrecovers hrestart
          exact ⟨hsound, .inl hentries⟩
        · obtain ⟨hsound, hentries⟩ := onMedium_entries hrecovers hrestart
          exact ⟨hsound, .inr ⟨op, effects, kept, rfl, hentries⟩⟩
    · simp at hstep
  · simp at hstep

/-! ### Acts and the entries -/

/-- An entry that `visit` comes to is stored under its id. -/
theorem get?_of_visit {scan scan' : Scan} {es : Entries} {e : Entry}
    (h : scan.visit es = some (some e, scan')) : es.get? e.id = some e := by
  obtain ⟨id, -, hget⟩ := Scan.visit_eq_some_iff.1 h
  rwa [es.keyed id e hget]

/-- The entry that the pass under way has in hand: `held?` of its phase. -/
def inHand? (g : Journal W) : Option Entry := g.pass.bind (·.phase.held?)

theorem held?_awaiting (e : Entry) (pending dropped : Nat) :
    (awaiting e pending dropped).held? = some e := by
  unfold awaiting
  split <;> rfl

/-- **What the pass does to the entry in hand:** it takes in hand what is stored, and keeps it in
    hand until it lets go of it. -/
theorem inHand?_of_passMove {act : PassAct} (hpass : g.pass = some p) (h : g.PassMove p act g')
    {e : Entry} (he : g'.inHand? = some e) :
    g'.store = g.store ∧ (g.inHand? = some e ∨ g.entries.get? e.id = some e) := by
  have hheld : ∀ {e' : Entry} {phase : Phase}, p.phase = phase → phase.held? = some e' → e' = e →
      g.inHand? = some e := by
    intro e' phase hphase hentry heq
    simp [inHand?, hpass, hphase, hentry, heq]
  -- An entry comes into the hand of the pass by a look at the store, and stays there until it is
  -- done.
  cases h with
  | fetched hphase hscan =>
    obtain rfl := Option.some.inj he
    exact ⟨rfl, .inr (get?_of_visit hscan)⟩
  | accepted hphase hage hdecode hplace =>
    refine ⟨rfl, .inl (hheld hphase rfl ?_)⟩
    rcases hplace with rfl | rfl <;> exact Option.some.inj he
  | paced hphase hplace =>
    refine ⟨rfl, .inl (hheld hphase rfl ?_)⟩
    rcases hplace with rfl | rfl <;> exact Option.some.inj he
  | woken hphase | dropped hphase htruncated hlate | kept hphase hkept | attempted hphase
  | refusedClosed hphase hclosed | offered hphase hopen | refusedFull hphase hfull
  | inserted hphase hpush | roused hphase hrouse | collectedError hphase hmailbox
  | abandoned hphase hmailbox hnobody | expired hphase =>
    exact ⟨rfl, .inl (hheld hphase rfl (Option.some.inj he))⟩
  -- Where the pass goes from here, it still holds the entry.
  | offeredAll hphase | collected hphase hmailbox =>
    have hsame := (held?_awaiting _ _ _).symm.trans he
    exact ⟨rfl, .inl (hheld hphase rfl (Option.some.inj hsame))⟩
  | exhausted hphase hscan | stopped hphase hstop | wokenToStop hphase hstop =>
    simp [inHand?, finish, Phase.held?] at he
  | skipped hphase hscan | tooYoung hphase hage | undecodable hphase hage hdecode
  | deleted hphase hdelete | undeleted hphase hdelete | panicked =>
    simp [inHand?, passAt, Phase.held?] at he
  | counted hphase => simp [inHand?, countFailure, passAt, Phase.held?] at he
  | retired hphase => simp [inHand?] at he

/-- What a client does to the store is one operation, which writes no id but that of the act. -/
theorem store_of_clientStep (g : Journal W) (act : ClientAct) :
    (g.clientStep act).store = g.store
      ∨ ∃ failure op, (∀ id, op.written? = some id → (Act.client act : Act W).written? = some id)
        ∧ (g.clientStep act).store = (g.onStore failure op).2.store := by
  cases act with
  | submit id ms written failure =>
    simp only [clientStep, submit]
    split
    · exact .inl rfl
    · split
      · exact .inl rfl
      · rename_i payload _
        refine .inr ⟨failure, .put ⟨id, written, g.registry.current, payload⟩, fun _ h => h, ?_⟩
        simp only [put]
        split <;> (rename_i heq; rw [heq])
  | put e failure => exact .inr ⟨failure, .put e, fun _ h => h, rfl⟩
  | remove id failure =>
    refine .inr ⟨failure, .delete id, by simp [StoreOp.written?], ?_⟩
    simp only [clientStep, remove]
    split <;> (rename_i heq; rw [heq])
  | flush failure =>
    refine .inr ⟨failure, .flush, by simp [StoreOp.written?], ?_⟩
    simp only [clientStep, flush]
    split <;> (rename_i heq; rw [heq])
  | compact failure => exact .inr ⟨failure, .compact, by simp [StoreOp.written?], rfl⟩

/-- **What an act does to the entries:** nothing, or the `effect` of an operation that writes no id
    but that of the act. -/
theorem entries_of_step (h : g.store.Sound) (hstep : g.step a = some g') :
    g'.store.Sound ∧ (g'.entries = g.entries
      ∨ ∃ op : StoreOp, (∀ id, op.written? = some id → a.written? = some id)
        ∧ g'.entries = op.effect g.entries) := by
  -- Acts that leave the store alone, and acts that are one operation of it.
  have hsame : g'.store = g.store → g'.store.Sound ∧ (g'.entries = g.entries
      ∨ ∃ op : StoreOp, (∀ id, op.written? = some id → a.written? = some id)
        ∧ g'.entries = op.effect g.entries) := by
    intro hstore
    rw [entries, entries, hstore]
    exact ⟨h, .inl rfl⟩
  have hop : ∀ {failure op}, (∀ id, op.written? = some id → a.written? = some id) →
      g'.store = (g.onStore failure op).2.store → g'.store.Sound ∧ (g'.entries = g.entries
        ∨ ∃ op : StoreOp, (∀ id, op.written? = some id → a.written? = some id)
          ∧ g'.entries = op.effect g.entries) := by
    intro failure op hwritten hstore
    obtain ⟨hsound, hentries⟩ := entries_onStore h failure op
    rw [entries, hstore]
    rcases hentries with ⟨-, hentries⟩ | ⟨-, hentries⟩
    · exact ⟨hsound, .inr ⟨op, hwritten, hentries⟩⟩
    · exact ⟨hsound, .inl hentries⟩
  cases a with
  | worker act => exact hsame (beside_of_workerStep hstep).store
  | pass act =>
    rcases pass_cases hstep with ⟨ticket, rfl, hbegin⟩ | ⟨p, -, hmove⟩
    · obtain ⟨-, number, throttle, rfl⟩ := begin_cases hbegin
      exact hsame rfl
    · rcases store_of_passMove hmove with hstore | ⟨failure, id, hstore⟩
      · exact hsame hstore
      · exact hop (by simp [StoreOp.written?]) hstore
  | client act =>
    obtain rfl := Option.some.inj hstep
    rcases g.store_of_clientStep act with hstore | ⟨failure, op, hwritten, hstore⟩
    · exact hsame hstore
    · exact hop hwritten hstore
  | path event =>
    obtain rfl := Option.some.inj hstep
    exact hsame rfl
  | control move =>
    obtain ⟨control, rfl⟩ := control_cases hstep
    exact hsame rfl
  | closePool =>
    obtain rfl := Option.some.inj hstep
    exact hsame rfl
  | clearPool =>
    obtain ⟨-, rfl⟩ := clearPool_cases hstep
    exact hsame rfl
  | restart directory ending =>
    obtain ⟨hsound, hentries⟩ := entries_of_restart h hstep
    rcases hentries with hentries | ⟨op, effects, kept, rfl, hentries⟩
    · exact ⟨hsound, .inl hentries⟩
    · exact ⟨hsound, .inr ⟨op, fun _ hid => hid, hentries⟩⟩

/-- `Sound` is kept by every run. -/
theorem sound_of_run (hsound : start.store.Sound) (hrun : start.run acts = some g) :
    g.store.Sound :=
  run_keeps (I := fun g => g.store.Sound) (fun h hstep => (entries_of_step h hstep).1) hsound hrun

/-- **What an act does to the entry in hand:** nobody but the pass touches it, and while it is in
    hand the pass leaves the store alone. -/
theorem inHand?_of_step (hstep : g.step a = some g') {e : Entry} (he : g'.inHand? = some e) :
    g.inHand? = some e
      ∨ g'.store = g.store ∧ g.entries.get? e.id = some e := by
  cases stepMove_of_step hstep with
  | worker hstep => exact .inl (by rwa [inHand?, ← (beside_of_workerStep hstep).pass])
  | begun => simp [inHand?, Phase.held?] at he
  | passed hpass hmove =>
    obtain ⟨hstore, hentry⟩ := inHand?_of_passMove hpass hmove he
    exact hentry.imp_right fun hget => ⟨hstore, hget⟩
  | restarted => simp [inHand?, opened] at he
  | aside => exact .inl he

/-! ### Written once -/

/-- What is found after an `effect` was written by it or was there before. -/
theorem get?_of_effect {op : StoreOp} {es : Entries} {id : BatchId} {e : Entry}
    (h : (op.effect es).get? id = some e) : op.written? = some id ∨ es.get? id = some e := by
  cases op with
  | put e' =>
    simp only [StoreOp.effect, Entries.get?_put] at h
    split at h
    · rename_i hid
      exact .inl (by rw [hid]; rfl)
    · exact .inr h
  | delete id' =>
    simp only [StoreOp.effect, Entries.get?_delete] at h
    split at h
    · simp at h
    · exact .inr h
  | flush | compact => exact .inr h

/-- The ids that were stored at the start or `written?` since. -/
def seen (start : Journal W) (acts : List (Act W)) : List BatchId :=
  start.entries.ids ++ acts.filterMap Act.written?

theorem seen_concat (start : Journal W) (acts : List (Act W)) (a : Act W) :
    start.seen (acts ++ [a]) = start.seen acts ++ a.written?.toList := by
  cases h : a.written? <;> simp [seen, h]

/-- **Ids written once:** what is stored stands under an id that was `seen`, and under the id of the
    entry in hand nothing else is stored. -/
structure Unmistakable (start : Journal W) (acts : List (Act W)) (g : Journal W) : Prop where
  /-- The store is sound. -/
  sound : g.store.Sound
  /-- Every id that is stored was seen. -/
  known : ∀ id e, g.entries.get? id = some e → id ∈ start.seen acts
  /-- So was that of the entry in hand, and it is the only one under it. -/
  held : ∀ e, g.inHand? = some e →
    e.id ∈ start.seen acts ∧ ∀ e', g.entries.get? e.id = some e' → e' = e

/-- An act keeps `Unmistakable`, unless it writes an id that was `seen`. -/
theorem Unmistakable.step (h : Unmistakable start acts g) (hstep : g.step a = some g')
    (honce : (start.seen (acts ++ [a])).Nodup) : Unmistakable start (acts ++ [a]) g' := by
  rw [seen_concat] at honce
  have hdisjoint : ∀ id, id ∈ start.seen acts → a.written? ≠ some id := by
    intro id hid hwritten
    rw [hwritten, Option.toList_some] at honce
    exact (List.nodup_append.1 honce).2.2 id hid id (List.mem_singleton_self id) rfl
  obtain ⟨hsound, hentries⟩ := entries_of_step h.sound hstep
  -- Whatever stands in the store afterwards stood there before, or was written just now.
  have hget : ∀ {id e}, g'.entries.get? id = some e →
      a.written? = some id ∨ g.entries.get? id = some e := by
    intro id e hid
    rcases hentries with hsame | ⟨op, hwritten, heffect⟩
    · rw [hsame] at hid
      exact .inr hid
    · rw [heffect] at hid
      exact (get?_of_effect hid).imp_left (hwritten id)
  refine ⟨hsound, ?_, ?_⟩
  · intro id e hid
    rw [seen_concat]
    rcases hget hid with hwritten | hbefore
    · rw [hwritten]
      simp
    · exact List.mem_append_left _ (h.known id e hbefore)
  · intro e he
    rw [seen_concat]
    rcases inHand?_of_step hstep he with hheld | ⟨hstore, hstored⟩
    · obtain ⟨hseen, honly⟩ := h.held e hheld
      refine ⟨List.mem_append_left _ hseen, fun e' he' => ?_⟩
      rcases hget he' with hwritten | hbefore
      · exact absurd hwritten (hdisjoint _ hseen)
      · exact honly e' hbefore
    · refine ⟨List.mem_append_left _ (h.known _ _ hstored), fun e' he' => ?_⟩
      rw [entries, hstore] at he'
      exact Option.some.inj (he'.symm.trans hstored)

/-- **What is stored under the id of the entry in hand is that entry,** as long as no id is written
    twice: `seen` has no duplicates. -/
theorem stored_eq_of_inHand (hsound : start.store.Sound) (hnew : start.pass = none)
    (hrun : start.run acts = some g) (honce : (start.seen acts).Nodup) {e stored : Entry}
    (he : g.inHand? = some e) (hstored : g.entries.get? e.id = some stored) : stored = e := by
  -- Induction on the acts: what the pass holds was seen once and not written again.
  have hunmistakable : Unmistakable start acts g := by
    clear he hstored
    induction acts using List.reverseRecOn generalizing g with
    | nil =>
      obtain rfl := Option.some.inj hrun
      refine ⟨hsound, ?_, by simp [inHand?, hnew]⟩
      intro id e hid
      rw [seen, List.filterMap_nil, List.append_nil]
      exact Entries.mem_ids_of_get? hid
    | append_singleton acts a ih =>
      obtain ⟨g₁, hrun₁, hstep⟩ := run_concat.1 hrun
      have hbefore : (start.seen acts).Nodup := by
        rw [seen_concat] at honce
        exact (List.nodup_append.1 honce).1
      exact (ih hrun₁ hbefore).step hstep honce
  exact (hunmistakable.held e he).2 stored hstored

end Journal

end BatchJournal
