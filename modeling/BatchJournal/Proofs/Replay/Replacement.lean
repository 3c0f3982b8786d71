import BatchJournal.Proofs.Journal.Storing
import BatchJournal.Proofs.Replay.Delivery

namespace BatchJournal

/-!
# Entries that are replaced while they are replayed

A pass takes an entry in hand, applies what it has in hand, and then deletes whatever stands under
its id.  What was put there in the meantime is deleted with it, and was not applied.

* `Journal.ReplacedInHand` — an entry was put under the id of the one in hand.
* `Journal.eq_or_replaced` — otherwise the one in hand is the one that is stored.
* `Journal.stored_since_put` — while the entry is in hand, what was put in its place stays.
* `Journal.kept_unless_replayed` — it stays when the attempt ends, unless that was a success.
* `Journal.replacement_lost` — then it is lost.
-/

namespace Journal

variable {W : WritePath} {start g g' : Journal W} {acts : List (Act W)} {a : Act W} {e newer : Entry}

/-! ### What is put meanwhile -/

/-- **`newer` was put while `e` was in hand,** and `e` has been in hand since. -/
def ReplacedInHand (start : Journal W) (acts : List (Act W)) (e newer : Entry) : Prop :=
  ∃ earlier a later g, acts = earlier ++ a :: later ∧ start.run earlier = some g
    ∧ g.inHand? = some e ∧ g.doing? a = some (.put newer)
    ∧ ∀ part, part <+: later → ∃ g', g.run (a :: part) = some g' ∧ g'.inHand? = some e

/-- An act that puts `newer` begins `ReplacedInHand`. -/
theorem replaced_of_doing (hrun : start.run acts = some g) (hheld : g.inHand? = some e)
    (hdoing : g.doing? a = some (.put newer)) (hstep : g.step a = some g')
    (hheld' : g'.inHand? = some e) : ReplacedInHand start (acts ++ [a]) e newer := by
  refine ⟨acts, a, [], g, rfl, hrun, hheld, hdoing, fun part hpart => ?_⟩
  rw [List.prefix_nil.1 hpart]
  exact ⟨g', by simp [run, hstep], hheld'⟩

/-- Any act that leaves `e` in hand keeps it. -/
theorem ReplacedInHand.concat (h : ReplacedInHand start acts e newer)
    (hrun : start.run acts = some g) (hstep : g.step a = some g') (hheld' : g'.inHand? = some e) :
    ReplacedInHand start (acts ++ [a]) e newer := by
  obtain ⟨earlier, b, later, g₁, rfl, hearlier, hheld, hdoing, hsince⟩ := h
  have hlater : g₁.run (b :: later) = some g := by
    rw [run_append, hearlier] at hrun
    exact hrun
  refine ⟨earlier, b, later ++ [a], g₁, by simp, hearlier, hheld, hdoing, fun part hpart => ?_⟩
  rcases List.prefix_concat_iff.1 hpart with rfl | hpart
  · exact ⟨g', run_concat.2 ⟨g, hlater, hstep⟩, hheld'⟩
  · exact hsince part hpart

/-- **What is stored under the id of the entry in hand** is that entry, or is `ReplacedInHand`. -/
theorem eq_or_replaced (hsound : start.store.Sound) (hnew : start.pass = none)
    (hrun : start.run acts = some g) (hheld : g.inHand? = some e)
    (hstored : g.entries.get? e.id = some newer) :
    newer = e ∨ ReplacedInHand start acts e newer := by
  refine run_induction
    (I := fun acts g => ∀ e newer, g.inHand? = some e → g.entries.get? e.id = some newer →
      newer = e ∨ ReplacedInHand start acts e newer)
    (fun e newer hheld => ?_) (fun {earlier g₁ a g₂} _ hearlier hstep ih e newer hheld hstored => ?_)
    hrun e newer hheld hstored
  · simp [inHand?, hnew] at hheld
  · rcases inHand?_of_step hstep hheld with hbefore | ⟨hstore, hget⟩
    · have hsound₁ := sound_of_run hsound hearlier
      rcases stored_of_step hsound₁ hstep hstored with hget | ⟨hdoing, -⟩
      · exact (ih e newer hbefore hget).imp_right (·.concat hearlier hstep hheld)
      · exact .inr (replaced_of_doing hearlier hbefore hdoing hstep hheld)
    · -- The entry was taken in hand just now, and nothing was put.
      rw [entries, hstore] at hstored
      exact .inl (Option.some.inj (hstored.symm.trans hget))

/-! ### Until the attempt ends -/

/-- **While an entry is in hand** nobody but a client takes out what stands under its id. -/
theorem stored_while_inHand (h : g.store.Sound) (hstored : g.entries.get? e.id = some newer)
    (hstep : g.step a = some g') (hheld' : g'.inHand? = some e) (hother : a.written? ≠ some e.id)
    (hstays : ∀ failure, a ≠ .client (.remove e.id failure)) :
    g'.entries.get? e.id = some newer := by
  refine stored_of_not_doing h hstep hstored hother fun hdoing => ?_
  cases a with
  | client act =>
    cases act with
    | remove id failure =>
      simp only [doing?] at hdoing
      split at hdoing
      · obtain rfl := StoreOp.delete.inj (Option.some.inj hdoing)
        exact hstays failure rfl
      · simp at hdoing
    | submit | put =>
      simp only [doing?] at hdoing
      split at hdoing <;> simp at hdoing
    | flush | compact => simp [doing?] at hdoing
  | pass act =>
    -- The pass lets go of what it deletes.
    rcases pass_cases hstep with ⟨ticket, rfl, -⟩ | ⟨p, hpass, hmove⟩
    · simp [doing?] at hdoing
    · obtain ⟨-, ⟨hnone, -⟩ | ⟨e', dropped, -, -, -, -, hgone⟩⟩ := deletes_of_passMove h hpass hmove
      · simp [hnone] at hdoing
      · simp [hgone] at hheld'
  | restart directory ending =>
    obtain ⟨store, rfl⟩ := opened_of_restart hstep
    simp [inHand?, opened] at hheld'
  | worker | path | control | closePool | clearPool => simp [doing?] at hdoing

/-- **An entry that is put in the place of the one in hand** stays there for as long as the pass has
    that one in hand and nobody else touches the id. -/
theorem stored_since_put {within : List (Act W)} (hsound : g.store.Sound)
    (hput : g.doing? a = some (.put newer)) (hid : newer.id = e.id)
    (hrun : g.run (a :: within) = some g')
    (hheld : ∀ part, part <+: within → ∃ g₂, g.run (a :: part) = some g₂ ∧ g₂.inHand? = some e)
    (hothers : ∀ b ∈ within, b.written? ≠ some e.id
      ∧ ∀ failure, b ≠ .client (.remove e.id failure)) :
    g'.store.Sound ∧ g'.entries.get? e.id = some newer ∧ g'.inHand? = some e := by
  obtain ⟨g₁, hstep, hwithin⟩ := Option.bind_eq_some_iff.1 hrun
  -- Each part of the run is the run, so `hheld` names the very state reached.
  have hpart : ∀ {part g₂}, part <+: within → g₁.run part = some g₂ → g₂.inHand? = some e := by
    intro part g₂ hprefix hpart
    obtain ⟨g₂', hrun₂, hheld₂⟩ := hheld part hprefix
    obtain rfl := Option.some.inj ((Option.bind_eq_some_iff.2 ⟨g₁, hstep, hpart⟩).symm.trans hrun₂)
    exact hheld₂
  -- A restart would leave nothing in hand, which `hheld` excludes for the empty part.
  have hlives : ∀ directory ending, a ≠ .restart directory ending := by
    rintro directory ending rfl
    obtain ⟨store, rfl⟩ := opened_of_restart hstep
    have hnone := hpart List.nil_prefix rfl
    simp [inHand?, opened] at hnone
  have hstored : g₁.entries.get? e.id = some newer := by
    rw [entries_of_doing hsound hstep hput hlives, StoreOp.effect, Entries.get?_put,
      if_pos hid.symm]
  -- By induction on the parts of `within`: no step stores under the id or deletes it.
  refine run_induction
    (I := fun part g₂ => part <+: within →
      g₂.store.Sound ∧ g₂.entries.get? e.id = some newer ∧ g₂.inHand? = some e)
    (fun hprefix => ⟨(effect_of_step hsound hstep).1, hstored, hpart hprefix rfl⟩)
    (fun {part g₂ b g₃} hb hearlier hnext ih hprefix => ?_) hwithin List.prefix_rfl
  obtain ⟨hsound₂, hstored₂, -⟩ := ih ((List.prefix_append part [b]).trans hprefix)
  obtain ⟨hother, hstays⟩ := hothers b hb
  have hheld₃ := hpart hprefix (run_concat.2 ⟨g₂, hearlier, hnext⟩)
  exact ⟨(effect_of_step hsound₂ hnext).1,
    stored_while_inHand hsound₂ hstored₂ hnext hheld₃ hother hstays, hheld₃⟩

/-- **The pass acts on an entry in hand:** what is stored stays, and nothing is counted as replayed;
    or the pass makes its `delete`. -/
theorem deletes_of_inHand {act : PassAct} (h : g.store.Sound) (hheld : g.inHand? = some e)
    (hstep : g.step (.pass act) = some g') :
    g'.entries = g.entries ∧ g'.counters.replayed = g.counters.replayed
      ∨ ∃ p dropped, g.pass = some p ∧ p.phase = .deleting e dropped
        ∧ g'.entries = g.entries.delete e.id
        ∧ g'.counters.replayed = g.counters.replayed + 1 := by
  rcases pass_cases hstep with ⟨ticket, rfl, hbegin⟩ | ⟨p, hpass, hmove⟩
  · obtain ⟨hnone, -⟩ := begin_cases hbegin
    simp [inHand?, hnone] at hheld
  · obtain ⟨-, ⟨-, hentries, hcount⟩ | ⟨e', dropped, hphase, -, hentries, hcount, -⟩⟩ :=
      deletes_of_passMove h hpass hmove
    · exact .inl ⟨hentries, hcount⟩
    · have he : e' = e := by simpa [inHand?, hpass, hphase, Phase.held?] using hheld
      subst he
      exact .inr ⟨p, dropped, hpass, hphase, hentries, hcount⟩

/-- **What replaces an entry in hand is kept unless the attempt succeeds.**  Let the pass have an
    entry in hand.  What is stored under its id is that entry, or was put since the pass took it in
    hand. Let somebody put a newer entry under the id, let the pass keep the former in hand for a
    while in which nobody else writes or removes the id, and then let the pass do anything.  Then
    the newer entry is still stored, and nothing is counted as replayed; or the pass deletes what
    stands under the id and counts the entry that it had in hand, each of whose mutations was
    settled in its latest attempt, and nothing is stored under the id any more. -/
theorem kept_unless_replayed {settings : Settings} {registry : Registry} {store : Store}
    {path : W.State} {strays : List Delivery} {medium left : Medium} {directory : String}
    {options : StoreOptions} {warnings : List Warning}
    (hopen : medium.openWith directory options = (.ok (store, warnings), left))
    {before : List (Act W)} {g : Journal W} {e : Entry}
    (hbefore : (opened settings registry store path strays).run before = some g)
    (hheld : g.inHand? = some e) :
    (∀ stored, g.entries.get? e.id = some stored →
        stored = e ∨ ReplacedInHand (opened settings registry store path strays) before e stored)
      ∧ ∀ (a : Act W) (newer : Entry) (within : List (Act W)) (act : PassAct) (g₁ g' : Journal W),
        g.doing? a = some (.put newer) → newer.id = e.id → g.run (a :: within) = some g₁ →
        (∀ part, part <+: within → ∃ g₂, g.run (a :: part) = some g₂ ∧ g₂.inHand? = some e) →
        (∀ b ∈ within, b.written? ≠ some e.id
          ∧ ∀ failure, b ≠ .client (.remove e.id failure)) →
        g₁.step (.pass act) = some g' →
        (g'.entries.get? e.id = some newer ∧ g'.counters.replayed = g₁.counters.replayed)
          ∨ (g'.entries.get? e.id = none ∧ g'.counters.replayed = g₁.counters.replayed + 1
            ∧ ∃ ms settled, Attempted (opened settings registry store path strays)
                (before ++ a :: within) e g₁.attempts ms settled ∧ ms.Perm settled) := by
  have hsoundAtStart := Store.sound_of_openWith hopen
  refine ⟨fun stored hstored => eq_or_replaced hsoundAtStart rfl hbefore hheld hstored,
    fun a newer within act g₁ g' hput hid hrun hsince hothers hend => ?_⟩
  have hwhole : (opened settings registry store path strays).run (before ++ a :: within)
      = some g₁ := by
    rw [run_append, hbefore]
    exact hrun
  obtain ⟨hsound, hstored, hlast⟩ :=
    stored_since_put (sound_of_run hsoundAtStart hbefore) hput hid hrun hsince hothers
  -- The pass's last step either lets go of the entry or deletes what is stored under its id.
  rcases deletes_of_inHand hsound hlast hend with
    ⟨hentries, hcount⟩ | ⟨p, dropped, hpass, hphase, hentries, hcount⟩
  · exact .inl ⟨hentries ▸ hstored, hcount⟩
  · -- It deletes only after a full delivery, which is the account of a deleting phase.
    refine .inr ⟨by rw [hentries, Entries.get?_delete, if_pos rfl], hcount, ?_⟩
    have howes := (tracked_of_run rfl (fun q => Pool.tally_start _ _) hwhole).inHand p hpass
    rw [hphase] at howes
    obtain ⟨ms, settled, hattempted, haccount⟩ := howes
    exact ⟨ms, settled, hattempted, haccount.perm⟩

/-- An entry of one mutation, which waits in the pool. -/
def waitingEntry : List (Act replicaPath) := [
  .path (.createTable ⟨"toy", "t"⟩), .control (.board none), .pass (.begin 0), .pass .fetch,
  .pass (.consider ⟨5⟩), .pass .sort, .pass .sort, .pass .offer, .pass .insert,
  .pass (.rouse none), .pass .offer]

/-- An entry of two mutations is put in its place, and the deadline of the attempt passes: the newer
    entry is kept. -/
theorem kept_unless_replayed_expired :
    ∃ g g₁ g' : Journal replicaPath,
      (holding 1 1 ⟨default, ⟨5⟩, ⟨0⟩, [1]⟩).run waitingEntry = some g
        ∧ g.run [.client (.put ⟨default, ⟨9⟩, ⟨0⟩, [2]⟩ none), .pass (.expire 100)] = some g₁
        ∧ g₁.step (.pass .countFailure) = some g' ∧ g'.inHand? = none
        ∧ g'.entries.get? default = some ⟨default, ⟨9⟩, ⟨0⟩, [2]⟩ := by
  have hopen : (Medium.memory (Entries.empty.put ⟨default, ⟨5⟩, ⟨0⟩, [1]⟩)).openWith ""
      ⟨.always, .zero, 0, default⟩ = (.ok (.memory _, []), .memory _) := rfl
  obtain ⟨g, hbefore, hheld, hput, ⟨g₂, hput₂, hheld₂⟩, g₁, hrun, hheld₁, g', hend, hgone, hnone₁,
      hnone⟩ : ∃ g : Journal replicaPath,
        (holding 1 1 ⟨default, ⟨5⟩, ⟨0⟩, [1]⟩).run waitingEntry = some g
          ∧ g.inHand? = some ⟨default, ⟨5⟩, ⟨0⟩, [1]⟩
          ∧ g.doing? (.client (.put ⟨default, ⟨9⟩, ⟨0⟩, [2]⟩ none))
            = some (.put ⟨default, ⟨9⟩, ⟨0⟩, [2]⟩)
          ∧ (∃ g₂, g.run [.client (.put ⟨default, ⟨9⟩, ⟨0⟩, [2]⟩ none)] = some g₂
            ∧ g₂.inHand? = some ⟨default, ⟨5⟩, ⟨0⟩, [1]⟩)
          ∧ ∃ g₁, g.run [.client (.put ⟨default, ⟨9⟩, ⟨0⟩, [2]⟩ none), .pass (.expire 100)] = some g₁
            ∧ g₁.inHand? = some ⟨default, ⟨5⟩, ⟨0⟩, [1]⟩
            ∧ ∃ g', g₁.step (.pass .countFailure) = some g' ∧ g'.inHand? = none
              ∧ g₁.counters.replayed = 0 ∧ g'.counters.replayed = 0 :=
    -- Everything about the run is evaluated at once; what is stored at its end is left to the
    -- theorem.
    ⟨_, rfl, rfl, rfl, ⟨_, rfl, rfl⟩, _, rfl, rfl, _, rfl, rfl, rfl, rfl⟩
  refine ⟨g, g₁, g', hbefore, hrun, hend, hgone, ?_⟩
  have hkept := (kept_unless_replayed hopen hbefore hheld).2
    (.client (.put ⟨default, ⟨9⟩, ⟨0⟩, [2]⟩ none)) ⟨default, ⟨9⟩, ⟨0⟩, [2]⟩ [.pass (.expire 100)]
    .countFailure g₁ g' hput rfl hrun (fun part hpart => ?_) (fun b hb => ?_) hend
  · rcases hkept with ⟨hstored, -⟩ | ⟨-, hcount, -⟩
    · exact hstored
    · simp [hnone, hnone₁] at hcount
  · rcases List.prefix_cons_iff.1 hpart with rfl | ⟨rest, rfl, hrest⟩
    · exact ⟨g₂, hput₂, hheld₂⟩
    · rw [List.prefix_nil.1 hrest]
      exact ⟨g₁, hrun, hheld₁⟩
  · rw [List.mem_singleton.1 hb]
    exact ⟨nofun, fun failure => nofun⟩

/-- **A replacement can be lost:** the entry of two mutations is put in the place of the entry of
    one mutation that the pass has in hand, that one is applied, and the newer one is deleted.  Of
    its mutations none was applied, and it is gone. -/
theorem replacement_lost :
    ∃ g g' : Journal replicaPath,
      (holding 1 1 ⟨default, ⟨5⟩, ⟨0⟩, [1]⟩).run waitingEntry = some g
        ∧ g.inHand? = some ⟨default, ⟨5⟩, ⟨0⟩, [1]⟩
        ∧ g.doing? (.client (.put ⟨default, ⟨9⟩, ⟨0⟩, [2]⟩ none))
          = some (.put ⟨default, ⟨9⟩, ⟨0⟩, [2]⟩)
        ∧ g.run [.client (.put ⟨default, ⟨9⟩, ⟨0⟩, [2]⟩ none), .worker (.proceed 0),
            .worker (.apply 0 none), .worker (.report 0), .pass .collect, .pass (.delete none)]
          = some g'
        ∧ g'.inHand? = none ∧ g'.counters.replayed = 1
        ∧ g'.entries.get? default = none ∧ g'.path.applied = 1 :=
  ⟨_, _, rfl, rfl, rfl, rfl, rfl, rfl, rfl, rfl⟩

end Journal

end BatchJournal
