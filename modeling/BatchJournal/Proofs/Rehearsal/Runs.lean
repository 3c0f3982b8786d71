import BatchJournal.Proofs.Journal.Handing
import BatchJournal.Rehearsal.Basic

namespace BatchJournal

/-!
# What is rehearsed is a run

A `Rehearsal` plays one schedule of its journal.  Whatever a client asks of it, the journal takes
steps of `Journal.step` and nothing else, so what is proved of every `Journal.run` is proved of what
a rehearsal shows.

* `Rehearsal.Extends` — the journal of `r'` comes from the journal of `r` by a run.
* `Rehearsal.extends_perform` — each `Call` of a client, to its end, is a run.
* `Rehearsal.run_of_reached` — whatever was called, the journal comes by a run from one that was
  `opened`.
* `Rehearsal.restart_of_reopen` — `drop` and `build` come to the act `.restart`.
-/

namespace Rehearsal

variable {r r' r'' : Rehearsal} {g g' : Journal gatedPath}

/-- **The journal of `r'` comes from the journal of `r` by a run:** there are `acts` that
    `Journal.run` takes from the one to the other.  No journal comes or goes, and the settings and
    formats stay. -/
structure Extends (r r' : Rehearsal) : Prop where
  /-- `r'` opens journals with the settings of `r`. -/
  settings : r'.settings = r.settings
  /-- `r'` opens journals with the formats of `r`. -/
  registry : r'.registry = r.registry
  /-- The journal of `r` runs to the journal of `r'`. -/
  run : Option.Rel (fun g g' => ∃ acts, g.run acts = some g') r.journal? r'.journal?

namespace Extends

/-- Where only clocks and faults differ, `[]` is a run. -/
theorem of_journal? (hsettings : r'.settings = r.settings) (hregistry : r'.registry = r.registry)
    (hjournal : r'.journal? = r.journal?) : r.Extends r' := by
  refine ⟨hsettings, hregistry, ?_⟩
  rw [hjournal]
  cases r.journal? with
  | none => exact .none
  | some g => exact .some ⟨[], rfl⟩

theorem refl (r : Rehearsal) : r.Extends r := .of_journal? rfl rfl rfl

/-- Runs are joined by `++`. -/
theorem trans (h : r.Extends r') (h' : r'.Extends r'') : r.Extends r'' := by
  refine ⟨h'.settings.trans h.settings, h'.registry.trans h.registry, ?_⟩
  have hfirst := h.run
  have hsecond := h'.run
  generalize r.journal? = journal, r'.journal? = journal', r''.journal? = journal''
    at hfirst hsecond ⊢
  cases hfirst with
  | none => exact hsecond
  | some hrun =>
    cases hsecond with
    | some hrun' =>
      obtain ⟨acts, hrun⟩ := hrun
      obtain ⟨acts', hrun'⟩ := hrun'
      exact .some ⟨acts ++ acts', by rw [Journal.run_append, hrun]; exact hrun'⟩

/-- One step is a run of `[a]`. -/
theorem of_step {a : Act gatedPath} (hg : r.journal? = some g) (hstep : g.step a = some g') :
    r.Extends (r.withJournal g') := by
  refine ⟨rfl, rfl, ?_⟩
  rw [hg]
  refine .some ⟨[a], ?_⟩
  rw [Journal.run, hstep]
  rfl

/-- A journal that runs comes to one that runs. -/
theorem exists_run (h : r.Extends r') (hg : r.journal? = some g) :
    ∃ acts g', r'.journal? = some g' ∧ g.run acts = some g' := by
  have hrun := h.run
  rw [hg] at hrun
  generalize r'.journal? = journal at hrun
  cases hrun with
  | some hacts =>
    obtain ⟨acts, hacts⟩ := hacts
    exact ⟨acts, _, rfl, hacts⟩

end Extends

/-! ### Acts -/

theorem extends_act {a : Act gatedPath} (h : r.act a = some r') : r.Extends r' := by
  obtain ⟨g, hg, hmap⟩ := Option.bind_eq_some_iff.1 h
  obtain ⟨g', hstep, rfl⟩ := Option.map_eq_some_iff.1 hmap
  exact (Extends.of_step hg hstep).trans (.of_journal? rfl rfl rfl)

theorem extends_tryAct (a : Act gatedPath) : r.Extends (r.tryAct a) := by
  unfold tryAct
  cases hact : r.act a with
  | none => exact .refl r
  | some r' => exact extends_act hact

/-- However long a rehearsal plays, it plays acts. -/
theorem extends_playWithin (stop : Rehearsal → Journal gatedPath → Bool) (fuel : Nat) :
    r.Extends (r.playWithin stop fuel) := by
  induction fuel generalizing r with
  | zero => exact .refl r
  | succ fuel ih =>
    unfold playWithin
    split
    · exact .refl r
    · split
      · exact .refl r
      · split
        · exact .refl r
        · rename_i hact
          obtain ⟨a, -, hact⟩ := Option.bind_eq_some_iff.1 hact
          exact (extends_act hact).trans ih

theorem extends_playUntil (stop : Rehearsal → Journal gatedPath → Bool) :
    r.Extends (r.playUntil stop) := by
  unfold playUntil
  split
  · exact .refl r
  · exact extends_playWithin stop _

theorem extends_quiesce : r.Extends r.quiesce := extends_playUntil _

/-! ### Passes -/

theorem extends_beginPass (ticket : Nat) : r.Extends (r.beginPass ticket) := by
  unfold beginPass
  split
  · exact .refl r
  · rename_i r₁ hact
    have hbegun : r.Extends { r₁ with began := r₁.clock } :=
      (extends_act hact).trans (.of_journal? rfl rfl rfl)
    dsimp only
    split
    · exact hbegun.trans (extends_tryAct _)
    · exact hbegun

theorem extends_board : r.Extends r.board.2 := by
  unfold board
  split
  · exact .refl r
  · exact (extends_tryAct _).trans (extends_beginPass _)

theorem extends_boardMany (n : Nat) : r.Extends (r.boardMany n).2 := by
  induction n generalizing r with
  | zero => exact .refl r
  | succ n ih => exact extends_board.trans ih

theorem extends_replay : r.Extends r.replay.2 := extends_board.trans extends_quiesce

/-! ### The gate -/

/-- Whoever changes the write path does so by an event. -/
theorem extends_withPath (path : GatedReplica) : r.Extends (r.withPath path) := by
  unfold withPath
  split
  · rename_i g hscene
    have hg : r.journal? = some g := by simp only [journal?, hscene]
    exact .of_step (a := .path fun _ => path) hg rfl
  · rename_i hscene
    exact .of_journal? rfl rfl (by simp only [journal?, hscene])

/-- Deliveries that outlasted a journal come to their end where there is no journal. -/
theorem extends_releaseStraysWithin (fuel : Nat) : r.Extends (r.releaseStraysWithin fuel) := by
  induction fuel generalizing r with
  | zero => exact .refl r
  | succ fuel ih =>
    unfold releaseStraysWithin
    split
    · exact .refl r
    · rename_i hscene
      split
      · exact .refl r
      · refine Extends.trans ?_ ih
        exact .of_journal? rfl rfl (by simp only [journal?, hscene])

theorem extends_withGate (gate : Gate) : r.Extends (r.withGate gate) :=
  (extends_withPath _).trans ((extends_releaseStraysWithin _).trans extends_quiesce)

theorem extends_replayToGate (n : Nat) : r.Extends (r.replayToGate n).2.2 :=
  (extends_withGate _).trans (extends_board.trans (extends_playUntil _))

theorem extends_replayCancelled (n : Nat) : r.Extends (r.replayCancelled n).2.2 :=
  (extends_replayToGate n).trans ((extends_tryAct _).trans (extends_withGate _))

theorem extends_replayJoined (n joins : Nat) : r.Extends (r.replayJoined n joins).2.2 := by
  unfold replayJoined
  dsimp only
  split
  · exact (extends_replayToGate n).trans ((extends_boardMany joins).trans (extends_withGate _))
  · exact (extends_replayToGate n).trans (extends_withGate _)

theorem extends_replayCancelledResting (n : Nat) : r.Extends (r.replayCancelledResting n).2.2 :=
  extends_board.trans ((extends_playUntil _).trans ((extends_tryAct _).trans extends_quiesce))

/-! ### The scheduler and the shutdown -/

/-- A caller that has to wait lets others act, and they act by steps too. -/
theorem extends_driveWithin (caller fuel : Nat) : r.Extends (r.driveWithin caller fuel) := by
  induction fuel generalizing r with
  | zero => exact .refl r
  | succ fuel ih =>
    unfold driveWithin
    split
    any_goals exact .refl r
    split
    · rename_i hact
      exact (extends_act hact).trans ih
    · split
      · exact extends_quiesce.trans ((extends_tryAct _).trans ih)
      · exact extends_quiesce.trans ih

theorem extends_drive (come : Control.Move) : r.Extends (r.drive come).2.2 := by
  unfold drive
  split
  · exact .refl r
  · exact (extends_tryAct _).trans (extends_driveWithin _ _)

theorem extends_schedule : r.Extends r.schedule.2 := by
  have hdrive : r.Extends (r.drive .install).2.2 := extends_drive _
  unfold schedule
  split <;> (rename_i heq; rw [heq] at hdrive; exact hdrive)

/-- What a client does to the journal is a step. -/
theorem extends_client (act : ClientAct) (hg : r.journal? = some g) :
    r.Extends (r.withJournal (g.clientStep act)) :=
  .of_step (a := .client act) hg rfl

theorem extends_flush : r.Extends r.flush.2 := by
  unfold flush
  split
  · exact .refl r
  · rename_i g hg
    exact extends_client (.flush _) hg

theorem extends_shutDown : r.Extends r.shutDown.2 := by
  have hdrive : r.Extends (r.drive .shutDown).2.2 := extends_drive _
  unfold shutDown
  split
  · rename_i r₁ heq
    rw [heq] at hdrive
    have hstopped : r₁.Extends ((r₁.quiesce.tryAct .closePool).tryAct .clearPool).quiesce :=
      extends_quiesce.trans ((extends_tryAct _).trans ((extends_tryAct _).trans extends_quiesce))
    exact hdrive.trans (hstopped.trans (extends_flush.trans (extends_tryAct _)))
  · rename_i heq
    rw [heq] at hdrive
    exact hdrive

theorem extends_shutDownAtGate (n : Nat) : r.Extends (r.shutDownAtGate n).2.2.2 :=
  (extends_replayToGate n).trans (extends_shutDown.trans (extends_withGate _))

theorem extends_lieDown (k : Nat) : r.Extends (r.lieDown k) := by
  unfold lieDown
  split
  · exact extends_tryAct _
  · exact .refl r

theorem extends_rise (k : Nat) : r.Extends (r.rise k) := by
  have hbeats : r.Extends (((r.lieDown k).beat k).beat k) :=
    (extends_lieDown k).trans ((extends_tryAct _).trans (extends_tryAct _))
  unfold rise
  dsimp only
  split
  · exact hbeats.trans (extends_beginPass _)
  · exact hbeats

theorem extends_round (k : Nat) : r.Extends (r.round k) :=
  ((extends_rise k).trans (extends_quiesce.trans (extends_lieDown k))).trans
    (.of_journal? rfl rfl rfl)

theorem extends_roundsWithin (k left fuel : Nat) : r.Extends (r.roundsWithin k left fuel) := by
  induction fuel generalizing r with
  | zero => exact .refl r
  | succ fuel ih =>
    unfold roundsWithin
    split
    · exact .refl r
    · exact (extends_round k).trans ih

theorem extends_awaitDrained (left : Nat) : r.Extends (r.awaitDrained left).2 := by
  have hend : ∀ r₁, r.Extends r₁ →
      r.Extends (if r₁.drained left then (true, r₁.replay.2) else (false, r₁)).2 := by
    intro r₁ h
    split
    · exact h.trans extends_replay
    · exact h
  unfold awaitDrained
  refine hend _ ?_
  split
  · exact .refl r
  · split
    · exact .refl r
    · exact extends_roundsWithin _ _ _

/-- While a client is at work the scheduler may take steps. -/
theorem extends_spend (nanoseconds : Nat) : r.Extends (r.spend nanoseconds) := by
  unfold spend
  split
  · exact .refl r
  · split
    · exact .refl r
    · rename_i k _
      have hspent : r.Extends { r with spent := r.spent + nanoseconds } := .of_journal? rfl rfl rfl
      dsimp only
      split
      · exact hspent
      · exact ((hspent.trans (extends_rise k)).trans (extends_playUntil _)).trans
          (.of_journal? rfl rfl rfl)

/-! ### Other clients -/

theorem extends_submit (hg : r.journal? = some g) (ms : List Mutation) (written : Timestamp) :
    r.Extends (r.submit g ms written).2 := by
  have hsubmitted : ∀ id failure, r.Extends
      { r with scene := .running (g.submit id ms written failure).2, serial := r.serial + 1 } :=
    fun id failure => (extends_client (.submit id ms written failure) hg).trans
      (.of_journal? rfl rfl rfl)
  unfold submit
  dsimp only
  split
  · exact (hsubmitted _ _).trans (extends_spend _)
  · exact hsubmitted _ _

theorem extends_put (hg : r.journal? = some g) (e : Entry) : r.Extends (r.put g e).2 :=
  extends_client (.put e _) hg

theorem extends_remove (hg : r.journal? = some g) (id : BatchId) : r.Extends (r.remove g id).2 :=
  extends_client (.remove id _) hg

/-- A count flushes. -/
theorem extends_count (hg : r.journal? = some g) : r.Extends (r.count g).2 := by
  have hcount : ∀ failure, (g.count failure).2 = g.clientStep (.flush failure) := by
    intro failure
    show (g.count failure).2 = (g.flush failure).2
    unfold Journal.count
    split <;> (rename_i heq; rw [heq])
  unfold count
  dsimp only
  rw [hcount]
  exact extends_client (.flush _) hg

theorem extends_deliver (m : Mutation) (written : Timestamp) : r.Extends (r.deliver m written).2 :=
  extends_withPath _

/-! ### Any calls -/

/-- **What a client may ask for.** -/
inductive Call where
  /-- A pass, `replay`. -/
  | replay
  /-- A pass that is cancelled at its `n`-th delivery, `replayCancelled`. -/
  | replayCancelled (n : Nat)
  /-- A pass that others join at its `n`-th delivery, `replayJoined`. -/
  | replayJoined (n joins : Nat)
  /-- A pass that is cancelled in its sleep, `replayCancelledResting`. -/
  | replayCancelledResting (n : Nat)
  /-- The gate is shut, `shutGate`. -/
  | shutGate (n : Nat)
  /-- The gate is opened, `openGate`. -/
  | openGate
  /-- The write path is changed, `withPath`. -/
  | path (path : GatedReplica)
  /-- The store is told to fail, `withFaults`. -/
  | faults (faults : StoreFaults)
  /-- The scheduler is installed, `schedule`. -/
  | schedule
  /-- The shutdown, `shutDown`. -/
  | shutDown
  /-- The shutdown during a pass, `shutDownAtGate`. -/
  | shutDownAtGate (n : Nat)
  /-- The scheduler is waited for, `awaitDrained`. -/
  | awaitDrained (left : Nat)
  /-- A batch, `submit`. -/
  | submit (mutations : List Mutation) (written : Timestamp)
  /-- An entry for the store, `put`. -/
  | put (entry : Entry)
  /-- A batch was delivered directly, `remove`. -/
  | remove (id : BatchId)
  /-- The number of batches, `count`. -/
  | count
  /-- A delivery past the journal, `deliver`. -/
  | deliver (mutation : Mutation) (written : Timestamp)

/-- The rehearsal after a call; a client of the journal finds nobody where there is none. -/
def perform (r : Rehearsal) : Call → Rehearsal
  | .replay => r.replay.2
  | .replayCancelled n => (r.replayCancelled n).2.2
  | .replayJoined n joins => (r.replayJoined n joins).2.2
  | .replayCancelledResting n => (r.replayCancelledResting n).2.2
  | .shutGate n => r.shutGate n
  | .openGate => r.openGate
  | .path path => r.withPath path
  | .faults faults => r.withFaults faults
  | .schedule => r.schedule.2
  | .shutDown => r.shutDown.2
  | .shutDownAtGate n => (r.shutDownAtGate n).2.2.2
  | .awaitDrained left => (r.awaitDrained left).2
  | .submit ms written => (r.journal?.map fun g => (r.submit g ms written).2).getD r
  | .put e => (r.journal?.map fun g => (r.put g e).2).getD r
  | .remove id => (r.journal?.map fun g => (r.remove g id).2).getD r
  | .count => (r.journal?.map fun g => (r.count g).2).getD r
  | .deliver m written => (r.deliver m written).2

/-- A client of the journal acts on it, if it is there. -/
theorem extends_onJournal {f : Journal gatedPath → Rehearsal}
    (h : ∀ g, r.journal? = some g → r.Extends (f g)) : r.Extends ((r.journal?.map f).getD r) := by
  cases hg : r.journal? with
  | none => exact .refl r
  | some g => exact h g hg

/-- **Every call is a run of the journal.** -/
theorem extends_perform (call : Call) : r.Extends (r.perform call) := by
  -- One case for each thing that can be asked of a rehearsal.
  cases call with
  | replay => exact extends_replay
  | replayCancelled n => exact extends_replayCancelled n
  | replayJoined n joins => exact extends_replayJoined n joins
  | replayCancelledResting n => exact extends_replayCancelledResting n
  | shutGate n => exact extends_withGate _
  | openGate => exact extends_withGate _
  | path path => exact extends_withPath path
  | faults faults =>
    show r.Extends (if r.onDisk then r else { r with faults })
    split
    · exact .refl r
    · exact .of_journal? rfl rfl rfl
  | schedule => exact extends_schedule
  | shutDown => exact extends_shutDown
  | shutDownAtGate n => exact extends_shutDownAtGate n
  | awaitDrained left => exact extends_awaitDrained left
  | submit ms written => exact extends_onJournal fun g hg => extends_submit hg ms written
  | put e => exact extends_onJournal fun g hg => extends_put hg e
  | remove id => exact extends_onJournal fun g hg => extends_remove hg id
  | count => exact extends_onJournal fun g hg => extends_count hg
  | deliver m written => exact extends_deliver m written

/-! ### The end of a journal and the next one -/

/-- `build` opens a journal where there is none, with the settings and formats of `r`. -/
theorem opened_of_build (hnone : r.journal? = none) (hg : r.build.2.journal? = some g) :
    ∃ store path strays, g = .opened r.settings r.registry store path strays := by
  cases hscene : r.scene with
  | running g => simp [journal?, hscene] at hnone
  | empty medium path strays =>
    simp only [build, hscene] at hg
    split at hg
    · rename_i g₁ left hopened
      obtain rfl : g₁ = g := by simpa [journal?, withJournal] using hg
      obtain ⟨store, rfl⟩ := Journal.opened_of_onMedium (congrArg Prod.fst hopened)
      exact ⟨store, path, strays, rfl⟩
    · simp [journal?] at hg

/-- `build` changes neither the settings nor the formats. -/
theorem configuration_of_build : r.build.2.settings = r.settings ∧ r.build.2.registry = r.registry := by
  unfold build
  split
  · exact ⟨rfl, rfl⟩
  · split <;> exact ⟨rfl, rfl⟩

/-- Where `build` finds a journal it leaves it. -/
theorem build_of_journal? (hg : r.journal? = some g) : r.build.2 = r := by
  cases hscene : r.scene with
  | running g => simp only [build, hscene]
  | empty medium path strays => simp [journal?, hscene] at hg

/-- `drop` changes neither the settings nor the formats. -/
theorem configuration_of_drop : r.drop.settings = r.settings ∧ r.drop.registry = r.registry := by
  have hshut : r.Extends r.shutDown.2 := extends_shutDown
  unfold drop
  dsimp only
  split <;> exact ⟨hshut.settings, hshut.registry⟩

/-- **What `drop` leaves** of a journal that was shut down: its medium, and the calls that its
    workers are inside of, which the gate of the write path keeps. -/
theorem scene_of_drop (hg : r.shutDown.2.journal? = some g) :
    ∃ path, r.drop.scene = .empty (g.medium .closed) path (g.outlasting .closed) := by
  cases hscene : r.shutDown.2.scene with
  | running g₁ =>
    obtain rfl : g₁ = g := by simpa [journal?, hscene] using hg
    let path : GatedReplica := g₁.path
    refine ⟨{ path with gate := path.gate.outlast g₁.pool.workers.length }, ?_⟩
    simp only [drop, hscene, path]
  | empty medium path strays => simp [journal?, hscene] at hg

/-- `drop` leaves no journal. -/
theorem journal?_drop : r.drop.journal? = none := by
  unfold drop
  dsimp only
  split
  · rename_i hscene
    simp only [journal?, hscene]
  · rfl

/-- **What a rehearsal comes to** by calls, and by ends and beginnings of journals. -/
inductive Reached : Rehearsal → Prop where
  /-- Nothing was opened yet. -/
  | start (settings : Settings) (registry : Registry) (medium : Medium) :
      Reached (fresh settings registry medium)
  /-- A client called. -/
  | perform {r : Rehearsal} (h : Reached r) (call : Call) : Reached (r.perform call)
  /-- A journal was opened, if there was none. -/
  | build {r : Rehearsal} (h : Reached r) : Reached r.build.2
  /-- The journal was ended. -/
  | drop {r : Rehearsal} (h : Reached r) : Reached r.drop

/-- **Whatever a rehearsal comes to, its journal is one that steps lead to:** it comes by a run from
    a journal that was `opened` with the settings and formats of `r`. -/
theorem run_of_reached (h : Reached r) (hg : r.journal? = some g) :
    ∃ store path strays acts,
      (Journal.opened r.settings r.registry store path strays).run acts = some g := by
  induction h generalizing g with
  | start settings registry medium => simp [journal?, Rehearsal.fresh] at hg
  | @perform r h call ih =>
    have hextends : r.Extends (r.perform call) := extends_perform call
    rw [hextends.settings, hextends.registry]
    cases hbefore : r.journal? with
    -- Nothing that is asked of it opens a journal; only `build` does.
    | none =>
      have hnone := hextends.run
      rw [hbefore, hg] at hnone
      cases hnone
    | some g₁ =>
      -- What is played goes on from the acts that led here.
      obtain ⟨acts, g', hg', hrun⟩ := hextends.exists_run hbefore
      obtain rfl := Option.some.inj (hg'.symm.trans hg)
      obtain ⟨store, path, strays, earlier, hearlier⟩ := ih hbefore
      exact ⟨store, path, strays, earlier ++ acts, by
        rw [Journal.run_append, hearlier]
        exact hrun⟩
  | @build r h ih =>
    cases hbefore : r.journal? with
    | none =>
      obtain ⟨store, path, strays, rfl⟩ := opened_of_build hbefore hg
      obtain ⟨hsettings, hregistry⟩ := configuration_of_build (r := r)
      rw [hsettings, hregistry]
      exact ⟨store, path, strays, [], rfl⟩
    | some g₁ =>
      rw [build_of_journal? hbefore] at hg ⊢
      exact ih hg
  | drop h ih => simp [journal?_drop] at hg

/-- **`drop` and `build` come to the act `.restart`,** where the shutdown leaves no pass under way:
    the journal that is opened again is the one that a run leads to. -/
theorem restart_of_reopen (hg : r.journal? = some g) (hsettings : g.settings = r.settings)
    (hregistry : g.registry = r.registry)
    (hidle : ∀ g₁, r.shutDown.2.journal? = some g₁ → g₁.pass = none)
    (hg' : r.drop.build.2.journal? = some g') :
    ∃ acts, g.run (acts ++ [.restart directory .closed]) = some g' := by
  obtain ⟨acts, g₁, hg₁, hrun⟩ := (extends_shutDown (r := r)).exists_run hg
  obtain ⟨path, hscene⟩ := scene_of_drop hg₁
  obtain ⟨hsettings', hregistry'⟩ := configuration_of_drop (r := r)
  obtain ⟨hsettings₁, hregistry₁⟩ := Journal.configuration_of_run hrun
  -- The gate is left behind by an event of the write path, and then the journal is closed.
  let g₂ : Journal gatedPath := { g₁ with path }
  have hleft : g.run (acts ++ [.path fun _ => path]) = some g₂ :=
    Journal.run_concat.2 ⟨g₁, hrun, rfl⟩
  refine ⟨_, Journal.run_concat.2 ⟨g₂, hleft, ?_⟩⟩
  have hend : g₂.mayEnd .closed = true := by simp [Journal.mayEnd, g₂, hidle g₁ hg₁]
  have hopened : g₂.restart directory .closed = .ok g' := by
    simp only [build, hscene, hsettings', hregistry'] at hg'
    rw [← hsettings, ← hregistry, ← hsettings₁, ← hregistry₁] at hg'
    split at hg'
    · rename_i g₃ left hopened
      obtain rfl : g₃ = g' := by simpa [journal?, withJournal] using hg'
      exact congrArg Prod.fst hopened
    · simp [journal?] at hg'
  simp only [Journal.step, hend, if_true, hopened]

end Rehearsal

end BatchJournal
