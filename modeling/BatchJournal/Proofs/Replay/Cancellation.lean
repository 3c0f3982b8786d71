import BatchJournal.Proofs.Journal.Handing
import BatchJournal.Proofs.Replay.Trail

namespace BatchJournal

/-!
# What a cancelled pass leaves behind

A request to stop takes effect between two entries or in a sleep, never within an attempt.  So a
pass that is cancelled has made its attempts on a first part of the entries that were due, each
attempt has its outcome, and the other entries are untouched.

* `Journal.attempt?`, `Journal.queued?` — an attempt begins, and a mutation goes to the pool.
* `Journal.Hands` — what was handed to the pool belongs to the attempts that were made.
* `Journal.HandsOver`, `Journal.handsOver_of_passMove` — what a move of the pass is to the attempts.
* `Journal.CutCleanly` — what there is to say of a pass that was asked to stop at any time.
* `Journal.cut_cleanly_of_run` — every pass that gives a report was cut cleanly.
* `Journal.nothing_handed_over` — an attempt may have nothing to hand over.
-/

/-- The entry that an attempt is made on, from `offering` to `deleting` or `failed`. -/
def Phase.attempted? : Phase → Option Entry
  | .offering e _ _ _ | .inserting e _ _ _ _ | .rousing e _ _ _ | .collecting e _ _ | .deleting e _
  | .failed e _ => some e
  | _ => none

namespace Journal

variable {W : WritePath} {start g g' : Journal W} {p p' : Pass} {a : Act W} {acts : List (Act W)}
  {own : BatchId → Bool} {looks : List Reading} {visits : List Visit} {halts : List Entry}
  {attempts : List (Entry × List Mutation)} {queued : List (Entry × Delivery)}
  {phase phase' : Phase} {e : Entry}

/-! ### What is handed to the pool -/

/-- **An attempt begins** when `sort` finds nothing more to sort: on that entry, with the mutations
    `live` that are to be handed to the pool. -/
def attempt? (g : Journal W) : Act W → Option (Entry × List Mutation)
  | .pass .sort =>
    match g.pass.map Pass.phase with
    | some (.sorting e [] live _) => some (e, live)
    | _ => none
  | _ => none

/-- **A mutation goes into the queue of the pool:** it is `handed?` and `push` takes it. -/
def queued? (g : Journal W) (a : Act W) : Option (Entry × Delivery) :=
  (g.handed? a).filter fun h => (g.pool.push (.waiting h.2)).isSome

/-- The mutations among `queued` that went in for `e`. -/
def queuedOf (e : Entry) (queued : List (Entry × Delivery)) : List Mutation :=
  (queued.filter fun h => h.1 == e).map fun h => h.2.mutation

theorem queuedOf_concat (e e' : Entry) (queued : List (Entry × Delivery)) (d : Delivery) :
    queuedOf e (queued ++ [(e', d)])
      = queuedOf e queued ++ if e' == e then [d.mutation] else [] := by
  rw [queuedOf, List.filter_append, List.map_append]
  cases h : e' == e <;> simp [queuedOf, h]

/-- **What was handed to the pool** belongs to the attempts that were made: to those that have their
    outcome in `visits`, and to the one that `phase` is at. -/
structure Hands (visits : List Visit) (attempts : List (Entry × List Mutation))
    (queued : List (Entry × Delivery)) (phase : Phase) : Prop where
  /-- The `past` attempts have their outcome in turn; and all mutations were handed over, unless the
      attempt has failed or is the `current` one. -/
  made : ∃ past current, attempts = past ++ current.toList
    ∧ past.map Prod.fst = (visits.filter fun v => v.verdict.ofAttempt).map Visit.entry
    ∧ (∀ a ∈ past, ∃ rest, a.2 = queuedOf a.1 queued ++ rest
      ∧ (rest = [] ∨ ⟨a.1, .failed⟩ ∈ visits))
    ∧ current.map Prod.fst = phase.attempted?
    ∧ ∀ a, current = some a → ∃ rest, a.2 = queuedOf a.1 queued ++ rest
      ∧ (phase.pursued? = some a.1 → rest = phase.carried)
  /-- Nothing else was handed to the pool. -/
  known : ∀ h ∈ queued, h.1 ∈ attempts.map Prod.fst

/-- `begin` hands nothing over. -/
theorem hands_begin {ticket : Nat} (hbegin : start.begin ticket = some g) :
    ∃ p, g.pass = some p ∧ Hands [] [] [] p.phase := by
  obtain ⟨-, number, throttle, rfl⟩ := begin_cases hbegin
  exact ⟨_, rfl, ⟨[], none, rfl, rfl, nofun, rfl, nofun⟩, nofun⟩

/-- **A move within an attempt or outside of attempts** keeps `Hands`. -/
theorem Hands.onward (h : Hands visits attempts queued phase)
    (hattempted : phase'.attempted? = phase.attempted?)
    (hcarried : ∀ e, phase.attempted? = some e → phase'.pursued? = some e →
      phase.pursued? = some e ∧ phase'.carried = phase.carried) :
    Hands visits attempts queued phase' := by
  obtain ⟨past, current, hsplit, houtcomes, hpast, hcurrent, hunder⟩ := h.made
  refine ⟨⟨past, current, hsplit, houtcomes, hpast, hcurrent.trans hattempted.symm, ?_⟩, h.known⟩
  intro a ha
  obtain ⟨rest, hrest, hleft⟩ := hunder a ha
  refine ⟨rest, hrest, fun hpursued => ?_⟩
  obtain ⟨hbefore, hsame⟩ := hcarried a.1 (by rw [← hcurrent, ha]; rfl) hpursued
  exact (hleft hbefore).trans hsame.symm

/-- **An attempt begins** on an entry that has had none, with `live` to be carried. -/
theorem Hands.attempt {live : List Mutation} (h : Hands visits attempts queued phase)
    (hnone : phase.attempted? = none) (hfresh : e ∉ visits.map Visit.entry)
    (hphase : phase'.attempted? = some e ∧ phase'.carried = live) :
    Hands visits (attempts ++ [(e, live)]) queued phase' := by
  obtain ⟨past, current, rfl, houtcomes, hpast, hcurrent, -⟩ := h.made
  obtain rfl : current = none := by simpa [hnone] using hcurrent
  -- The entry was not visited, so nothing was queued for an attempt at it.
  have hnew : ∀ h ∈ queued, h.1 ≠ e := by
    rintro s hs rfl
    have hmem := h.known s hs
    rw [Option.toList_none, List.append_nil, houtcomes] at hmem
    exact hfresh ((List.filter_sublist.map Visit.entry).subset hmem)
  refine ⟨⟨past, some (e, live), by simp, houtcomes, hpast, by rw [hphase.1]; rfl, ?_⟩, ?_⟩
  · rintro _ ⟨⟩
    refine ⟨live, ?_, fun _ => hphase.2.symm⟩
    rw [queuedOf, List.filter_eq_nil_iff.2 fun s hs => by simpa using hnew s hs]
    rfl
  · intro s hs
    rw [List.map_append]
    exact List.mem_append_left _ (h.known s hs)

/-- **A mutation is handed over** in the attempt under way: the delivery `d` moves from `carried` to
    `queued`. -/
theorem Hands.submit {d : Delivery} (h : Hands visits attempts queued phase)
    (hfresh : e ∉ visits.map Visit.entry)
    (hbefore : phase.attempted? = some e ∧ phase.pursued? = some e)
    (hafter : phase'.attempted? = some e)
    (hcarried : phase.carried = d.mutation :: phase'.carried) :
    Hands visits attempts (queued ++ [(e, d)]) phase' := by
  obtain ⟨past, current, hsplit, houtcomes, hpast, hcurrent, hunder⟩ := h.made
  refine ⟨⟨past, current, hsplit, houtcomes, ?_, by rw [hafter, hcurrent, hbefore.1], ?_⟩, ?_⟩
  · -- An attempt that has its outcome was on another entry.
    intro a ha
    obtain ⟨rest, hrest, hover⟩ := hpast a ha
    have hne : (e == a.1) = false := by
      refine beq_eq_false_iff_ne.2 fun heq => hfresh ?_
      have hmem : a.1 ∈ past.map Prod.fst := List.mem_map_of_mem ha
      rw [houtcomes] at hmem
      exact heq ▸ (List.filter_sublist.map Visit.entry).subset hmem
    refine ⟨rest, ?_, hover⟩
    rw [queuedOf_concat, hne, if_neg Bool.false_ne_true, List.append_nil]
    exact hrest
  · intro a ha
    obtain ⟨rest, hrest, hleft⟩ := hunder a ha
    have hsame : a.1 = e := by
      rw [ha, hbefore.1] at hcurrent
      exact Option.some.inj hcurrent
    refine ⟨phase'.carried, ?_, fun _ => rfl⟩
    rw [hrest, hleft (by rw [hsame]; exact hbefore.2), hcarried, queuedOf_concat, hsame,
      if_pos (beq_self_eq_true e), List.append_assoc]
    rfl
  · intro s hs
    rcases List.mem_append.1 hs with hs | hs
    · exact h.known s hs
    · rw [List.mem_singleton.1 hs, hsplit, List.map_append]
      refine List.mem_append_right _ ?_
      cases current with
      | none => simp [hbefore.1] at hcurrent
      | some a =>
        rw [hbefore.1] at hcurrent
        rw [← Option.some.inj hcurrent]
        exact List.mem_singleton_self _

/-- **An attempt has its outcome:** nothing is `carried` any more, or it is a failure. -/
theorem Hands.conclude {verdict : Verdict} (h : Hands visits attempts queued phase)
    (hbefore : phase.attempted? = some e) (hafter : phase'.attempted? = none)
    (hattempt : verdict.ofAttempt = true)
    (hover : verdict = .failed ∨ phase.pursued? = some e ∧ phase.carried = []) :
    Hands (visits ++ [⟨e, verdict⟩]) attempts queued phase' := by
  obtain ⟨past, current, rfl, houtcomes, hpast, hcurrent, hunder⟩ := h.made
  -- The attempt that is under way becomes one of the past.
  cases current with
  | none => simp [hbefore] at hcurrent
  | some a =>
    have hsame : a.1 = e := by
      rw [hbefore] at hcurrent
      exact Option.some.inj hcurrent
    refine ⟨⟨past ++ [a], none, by simp, ?_, ?_, by rw [hafter]; rfl, nofun⟩, h.known⟩
    · rw [List.map_append, houtcomes, List.filter_append, List.map_append, List.map_singleton,
        hsame]
      simp [hattempt]
    · intro b hb
      rcases List.mem_append.1 hb with hb | hb
      · obtain ⟨rest, hrest, hdone⟩ := hpast b hb
        exact ⟨rest, hrest, hdone.imp_right (List.mem_append_left _)⟩
      · obtain rfl := List.mem_singleton.1 hb
        obtain ⟨rest, hrest, hleft⟩ := hunder b rfl
        refine ⟨rest, hrest, ?_⟩
        -- It failed, or what was queued for it is all there was to queue.
        rcases hover with rfl | ⟨hpursued, hcarried⟩
        · exact .inr (List.mem_append_right _ (by rw [hsame]; exact List.mem_singleton_self _))
        · exact .inl ((hleft (by rw [hsame]; exact hpursued)).trans hcarried)

/-- **A verdict at the first look** is not `ofAttempt`. -/
theorem Hands.dismiss {verdict : Verdict} (h : Hands visits attempts queued phase)
    (hphase : phase.attempted? = none ∧ phase'.attempted? = none)
    (hlook : verdict.ofAttempt = false) :
    Hands (visits ++ [⟨e, verdict⟩]) attempts queued phase' := by
  obtain ⟨past, current, hsplit, houtcomes, hpast, hcurrent, -⟩ := h.made
  rw [hphase.1] at hcurrent
  obtain rfl := Option.map_eq_none_iff.1 hcurrent
  refine ⟨⟨past, none, hsplit, ?_, ?_, by rw [hphase.2]; rfl, nofun⟩, h.known⟩
  · rw [houtcomes, List.filter_append, List.map_append]
    simp [hlook]
  · intro a ha
    obtain ⟨rest, hrest, hover⟩ := hpast a ha
    exact ⟨rest, hrest, hover.imp_right (List.mem_append_left _)⟩

/-- At `awaiting` a pass has nothing to be `carried`. -/
theorem attempted?_awaiting (e : Entry) (pending dropped : Nat) :
    (awaiting e pending dropped).attempted? = some e
      ∧ (awaiting e pending dropped).carried = [] := by
  unfold awaiting
  split <;> exact ⟨rfl, rfl⟩

/-- **What a move is to the attempts:** what `visit?`, `attempt?` and `queued?` see of it, and what
    it changes of what `Hands` speaks of. -/
inductive HandsOver (g : Journal W) (p : Pass) : PassAct → Journal W → Prop where
  /-- The pass breaks down. -/
  | brokeDown {message : String} :
      HandsOver g p (.panic message) (g.passAt p (.finished (.error (.panicked message))))
  /-- An attempt begins, with `live` to be handed over. -/
  | begins {act : PassAct} {e : Entry} {live : List Mutation} {g' : Journal W} {p' : Pass}
      (hseen : g.visit? (.pass act) = none ∧ g.attempt? (.pass act) = some (e, live)
        ∧ g.queued? (.pass act) = none)
      (hpass' : g'.pass = some p') (haccepted : p.phase.accepted? = some e)
      (hbefore : p.phase.attempted? = none)
      (hafter : p'.phase.attempted? = some e ∧ p'.phase.carried = live) : HandsOver g p act g'
  /-- The next mutation goes into the queue, as the delivery `d`. -/
  | submits {act : PassAct} {e : Entry} {d : Delivery} {g' : Journal W} {p' : Pass}
      (hseen : g.visit? (.pass act) = none ∧ g.attempt? (.pass act) = none
        ∧ g.queued? (.pass act) = some (e, d))
      (hpass' : g'.pass = some p') (haccepted : p.phase.accepted? = some e)
      (hbefore : p.phase.attempted? = some e ∧ p.phase.pursued? = some e)
      (hafter : p'.phase.attempted? = some e)
      (hcarried : p.phase.carried = d.mutation :: p'.phase.carried) : HandsOver g p act g'
  /-- An entry is done with at the first look. -/
  | dismissed {act : PassAct} {e : Entry} {verdict : Verdict} {g' : Journal W} {p' : Pass}
      (hseen : g.visit? (.pass act) = some ⟨e, verdict⟩ ∧ g.attempt? (.pass act) = none
        ∧ g.queued? (.pass act) = none)
      (hpass' : g'.pass = some p')
      (hphase : p.phase.attempted? = none ∧ p'.phase.attempted? = none)
      (hlook : verdict.ofAttempt = false) : HandsOver g p act g'
  /-- An attempt ends: it failed, or nothing is `carried`. -/
  | concluded {act : PassAct} {e : Entry} {verdict : Verdict} {g' : Journal W} {p' : Pass}
      (hseen : g.visit? (.pass act) = some ⟨e, verdict⟩ ∧ g.attempt? (.pass act) = none
        ∧ g.queued? (.pass act) = none)
      (hpass' : g'.pass = some p') (hbefore : p.phase.attempted? = some e)
      (hafter : p'.phase.attempted? = none) (hattempt : verdict.ofAttempt = true)
      (hover : verdict = .failed ∨ p.phase.pursued? = some e ∧ p.phase.carried = []) :
      HandsOver g p act g'
  /-- The pass gets on within an attempt, or outside of attempts. -/
  | onward {act : PassAct} {g' : Journal W} {p' : Pass}
      (hseen : g.visit? (.pass act) = none ∧ g.attempt? (.pass act) = none
        ∧ g.queued? (.pass act) = none)
      (hpass' : g'.pass = some p') (hattempted : p'.phase.attempted? = p.phase.attempted?)
      (hcarried : ∀ e, p.phase.attempted? = some e → p'.phase.pursued? = some e →
        p.phase.pursued? = some e ∧ p'.phase.carried = p.phase.carried) : HandsOver g p act g'

/-- `attempt?` tells of an attempt just when everything was sorted. -/
theorem attempt?_sorting {mutations live : List Mutation} {dropped : Nat} (hpass : g.pass = some p)
    (hphase : p.phase = .sorting e mutations live dropped) :
    g.attempt? (.pass .sort) = if mutations = [] then some (e, live) else none := by
  cases mutations <;> simp [attempt?, hpass, hphase]

/-- `queued?` tells of a mutation just if `push` finds room for it. -/
theorem queued?_inserting {m : Mutation} {rest : List Mutation} {pending dropped : Nat}
    (hpass : g.pass = some p) (hphase : p.phase = .inserting e m rest pending dropped) :
    g.queued? (.pass .insert)
      = if (g.pool.push (.waiting ⟨g.attempts, m, e.written⟩)).isSome
        then some (e, ⟨g.attempts, m, e.written⟩) else none := by
  simp [queued?, handed?, hpass, hphase, Option.filter]

/-- **Every move** of a pass that neither stops nor is `retired` is one of these to the attempts. -/
theorem handsOver_of_passMove {act : PassAct} (hpass : g.pass = some p)
    (hmove : g.PassMove p act g') (hstay : act ≠ .retire)
    (hstops : g.stops (.pass act) = false) : g.HandsOver p act g' := by
  -- Outside of attempts there is nothing to be kept in step.
  have haside : ∀ {g₁ : Journal W} {p₁ : Pass} {phase : Phase},
      (g.visit? (.pass act) = none ∧ g.attempt? (.pass act) = none
        ∧ g.queued? (.pass act) = none) →
      g₁.pass = some p₁ → p.phase = phase → phase.attempted? = none →
      p₁.phase.attempted? = none → g.HandsOver p act g₁ := by
    intro g₁ p₁ phase hseen hpass₁ hphase hbefore hafter
    subst hphase
    exact .onward hseen hpass₁ (hafter.trans hbefore.symm) fun e he => by simp [hbefore] at he
  -- An attempt that fails is pursued no more.
  have hfails : ∀ {g₁ : Journal W} {p₁ : Pass} {e : Entry},
      (g.visit? (.pass act) = none ∧ g.attempt? (.pass act) = none
        ∧ g.queued? (.pass act) = none) →
      g₁.pass = some p₁ → p.phase.attempted? = some e →
      p₁.phase.attempted? = some e ∧ p₁.phase.pursued? = none → g.HandsOver p act g₁ :=
    fun hseen hpass₁ hbefore hafter => .onward hseen hpass₁ (hafter.1.trans hbefore.symm)
      fun e _ hpursued => by simp [hafter.2] at hpursued
  cases hmove with
  | stopped hphase hstop | wokenToStop hphase hstop => simp [stops, hpass, hstop] at hstops
  | panicked => exact .brokeDown
  | retired hphase => exact absurd rfl hstay
  | exhausted hphase | skipped hphase | fetched hphase | woken hphase =>
    exact haside ⟨rfl, rfl, rfl⟩ rfl hphase rfl rfl
  | tooYoung hphase hage =>
    exact .dismissed ⟨visit?_tooYoung hpass hphase hage, rfl, rfl⟩ rfl ⟨by rw [hphase]; rfl, rfl⟩
      rfl
  | undecodable hphase hage hdecode =>
    exact .dismissed ⟨visit?_undecodable hpass hphase hage hdecode, rfl, rfl⟩ rfl
      ⟨by rw [hphase]; rfl, rfl⟩ rfl
  | accepted hphase hage hdecode hnext =>
    have hseen := visit?_accepted hpass hphase hage hdecode
    rcases hnext with rfl | rfl <;> exact haside ⟨hseen, rfl, rfl⟩ rfl hphase rfl rfl
  | paced hphase hnext =>
    rcases hnext with rfl | rfl <;> exact haside ⟨rfl, rfl, rfl⟩ rfl hphase rfl rfl
  | dropped hphase htruncated hlate | kept hphase hkept =>
    exact haside ⟨rfl, attempt?_sorting hpass hphase, rfl⟩ rfl hphase rfl rfl
  | attempted hphase =>
    exact .begins ⟨rfl, attempt?_sorting hpass hphase, rfl⟩ rfl (by rw [hphase]; rfl)
      (by rw [hphase]; rfl) ⟨rfl, rfl⟩
  | offered hphase hopen | roused hphase hrouse =>
    refine .onward ⟨rfl, rfl, rfl⟩ rfl (by rw [hphase]; rfl) fun e he _ => ?_
    rw [hphase] at he ⊢
    exact ⟨he, rfl⟩
  | offeredAll hphase | collected hphase hmailbox =>
    refine .onward ⟨rfl, rfl, rfl⟩ rfl (by rw [hphase]; exact (attempted?_awaiting _ _ _).1)
      fun e he _ => ?_
    rw [hphase] at he ⊢
    exact ⟨he, (attempted?_awaiting _ _ _).2⟩
  | refusedClosed hphase hclosed | collectedError hphase hmailbox
  | abandoned hphase hmailbox hnobody | expired hphase =>
    exact hfails ⟨rfl, rfl, rfl⟩ rfl (by rw [hphase]; rfl) ⟨rfl, rfl⟩
  | refusedFull hphase hfull =>
    refine hfails ⟨rfl, rfl, ?_⟩ rfl (by rw [hphase]; rfl) ⟨rfl, rfl⟩
    rw [queued?_inserting hpass hphase, hfull]
    rfl
  | inserted hphase hpush =>
    have hqueued := queued?_inserting hpass hphase
    rw [hpush, Option.isSome_some, if_pos rfl] at hqueued
    exact .submits ⟨rfl, rfl, hqueued⟩ rfl (by rw [hphase]; rfl) (by rw [hphase]; exact ⟨rfl, rfl⟩)
      rfl (by rw [hphase]; rfl)
  | deleted hphase hdelete | undeleted hphase hdelete =>
    exact .concluded ⟨visit?_delete hpass hphase hdelete, rfl, rfl⟩ rfl (by rw [hphase]; rfl) rfl
      rfl (.inr (by rw [hphase]; exact ⟨rfl, rfl⟩))
  | counted hphase =>
    exact .concluded ⟨visit?_countFailure hpass hphase, rfl, rfl⟩ rfl (by rw [hphase]; rfl) rfl rfl
      (.inl rfl)

/-- **A move of a pass** that does not stop keeps `Hands`, unless the pass breaks down: one case for
    each constructor of `HandsOver`. -/
theorem Hands.move {act : PassAct} (h : Hands visits attempts queued p.phase)
    (hpass : g.pass = some p)
    (hfresh : ∀ e, p.phase.accepted? = some e → e ∉ visits.map Visit.entry)
    (hmove : g.PassMove p act g') (hstay : act ≠ .retire)
    (hstops : g.stops (.pass act) = false) :
    g'.Passing fun p' => Hands (visits ++ (g.visit? (.pass act)).toList)
      (attempts ++ (g.attempt? (.pass act)).toList)
      (queued ++ (g.queued? (.pass act)).toList) p'.phase := by
  -- What is seen of the move stands in the goal as it is looked up; each case knows what it is.
  have hhands : ∀ visit attempt submitted {p'}, (g.visit? (.pass act) = visit
        ∧ g.attempt? (.pass act) = attempt ∧ g.queued? (.pass act) = submitted) →
      g'.pass = some p' → Hands (visits ++ visit.toList) (attempts ++ attempt.toList)
        (queued ++ submitted.toList) p'.phase →
      g'.Passing fun p' => Hands (visits ++ (g.visit? (.pass act)).toList)
        (attempts ++ (g.attempt? (.pass act)).toList)
        (queued ++ (g.queued? (.pass act)).toList) p'.phase := by
    rintro visit attempt submitted p' ⟨rfl, rfl, rfl⟩ hpass' h
    exact .sound hpass' h
  cases handsOver_of_passMove hpass hmove hstay hstops with
  | brokeDown => exact .broken rfl rfl
  | begins hseen hpass' haccepted hbefore hafter =>
    refine hhands _ _ _ hseen hpass' ?_
    simpa using h.attempt hbefore (hfresh _ haccepted) hafter
  | submits hseen hpass' haccepted hbefore hafter hcarried =>
    refine hhands _ _ _ hseen hpass' ?_
    simpa using h.submit (hfresh _ haccepted) hbefore hafter hcarried
  | dismissed hseen hpass' hphase hlook =>
    refine hhands _ _ _ hseen hpass' ?_
    simpa using h.dismiss hphase hlook
  | concluded hseen hpass' hbefore hafter hattempt hover =>
    refine hhands _ _ _ hseen hpass' ?_
    simpa using h.conclude hbefore hafter hattempt hover
  | onward hseen hpass' hattempted hcarried =>
    refine hhands _ _ _ hseen hpass' ?_
    simpa using h.onward hattempted hcarried

/-- Where a pass stops it is at no attempt, and begins none. -/
theorem Hands.stop {act : PassAct} (h : Hands visits attempts queued p.phase)
    (hpass : g.pass = some p) (hstops : g.stops (.pass act) = true)
    (hstep : g.step (.pass act) = some g') :
    g.attempt? (.pass act) = none ∧ g.queued? (.pass act) = none
      ∧ ∃ p', g'.pass = some p' ∧ Hands visits attempts queued p'.phase := by
  obtain ⟨rfl, hplace⟩ := stopped_of_step hpass hstops hstep
  rcases hplace with ⟨e, now, rfl, hphase⟩ | ⟨e, ms, rfl, hphase⟩ <;>
    (rw [hphase] at h; exact ⟨rfl, rfl, _, rfl, h.onward rfl nofun⟩)

/-- **Every act keeps `Hands`,** unless the pass breaks down. -/
theorem Hands.step (h : Hands visits attempts queued p.phase) (hpass : g.pass = some p)
    (hfresh : ∀ e, p.phase.accepted? = some e → e ∉ visits.map Visit.entry)
    (hstays : a.restarts = false ∧ a ≠ .pass .retire) (hstep : g.step a = some g') :
    g'.Passing fun p' => Hands (visits ++ (g.outcome? a).toList)
      (attempts ++ (g.attempt? a).toList) (queued ++ (g.queued? a).toList) p'.phase := by
  -- The pass stops, it moves, or somebody else acts.
  rcases act_cases hpass hstays hstep with
    ⟨act, rfl, hstops⟩ | ⟨act, rfl, hstay, hstops, hmove⟩ | hother
  · obtain ⟨hattempt, hqueued, p', hpass', hhands⟩ := h.stop hpass hstops hstep
    refine .sound hpass' ?_
    rw [outcome?, if_pos hstops, hattempt, hqueued]
    simpa only [Option.toList_none, List.append_nil] using hhands
  · rw [outcome?, hstops, if_neg Bool.false_ne_true]
    exact h.move hpass hfresh hmove hstay hstops
  · obtain ⟨hsame, -, -⟩ := same_of_step hother hstays.1 hstep
    obtain ⟨-, houtcome, -⟩ := unseen_of_other (g := g) hother
    have hnone : g.attempt? a = none ∧ g.queued? a = none := by
      cases a with
      | pass act => exact absurd rfl (hother act)
      | _ => exact ⟨rfl, rfl⟩
    refine .sound (hsame.trans hpass) ?_
    rw [houtcome, hnone.1, hnone.2]
    simpa only [Option.toList_none, List.append_nil] using h

/-- **A whole run** keeps both `Trail` and `Hands` from `begin` until the pass breaks down, as long
    as others keep off the ids of `own`. -/
theorem trail_of_run {ticket : Nat} (hsound : start.store.Sound)
    (hbegin : start.begin ticket = some g)
    (hstays : ∀ a ∈ acts, a.restarts = false ∧ a ≠ .pass .retire)
    (hown : ∀ id, own id = true → ∀ a ∈ acts, a.keepsOff id = true)
    (hrun : g.run acts = some g') :
    g'.Passing fun p =>
      Trail own start (g.along look? acts) (g.along outcome? acts) (g.along interrupted? acts) g' p
        ∧ Hands (g.along outcome? acts) (g.along attempt? acts) (g.along queued? acts)
          p.phase := by
  -- Induction on the acts: trail and hands are kept together, as the hands need that no entry comes
  -- twice.
  refine run_induction (I := fun acts g' => g'.Passing fun p =>
      Trail own start (g.along look? acts) (g.along outcome? acts) (g.along interrupted? acts) g' p
        ∧ Hands (g.along outcome? acts) (g.along attempt? acts) (g.along queued? acts) p.phase)
    ?_ ?_ hrun
  · obtain ⟨p, hpass, htrail⟩ := trail_begin own hsound hbegin
    obtain ⟨p', hpass', hhands⟩ := hands_begin hbegin
    obtain rfl := Option.some.inj (hpass.symm.trans hpass')
    exact .sound hpass ⟨htrail, hhands⟩
  · intro earlier g₁ a g₂ ha hearlier hstep hpassing
    cases hpassing with
    | broken hpass hbroken =>
      obtain ⟨p', hpass', hbroken'⟩ := isBroken_of_step hpass hbroken (hstays a ha) hstep
      exact .broken hpass' hbroken'
    | sound hpass htold =>
      obtain ⟨htrail, hhands⟩ := htold
      simp only [along_concat hearlier]
      exact (htrail.step hpass (hstays a ha) (fun id hid => hown id hid a ha) hstep).and
        (hhands.step hpass (fun _ => htrail.fresh) (hstays a ha) hstep)

/-! ### Passes that are asked to stop -/

/-- **An entry is due** at `now`: it is `eligible`, and it decodes. -/
def due (g : Journal W) (now : Timestamp) (e : Entry) : Bool :=
  e.eligible now g.settings.replayAge && (g.registry.decode e.version e.payload).isOk

/-- No act but those of the pass touches what stands under `id`. -/
def untouched (acts : List (Act W)) (id : BatchId) : Bool := acts.all fun a => a.keepsOff id

/-- **A pass was cut cleanly** that began over `start`, was at its acts from `g` to `g'` and gives
    the report `r`, whenever it was asked to stop. -/
structure CutCleanly (start g : Journal W) (acts : List (Act W)) (g' : Journal W) (r : Report) :
    Prop where
  /-- The pass looked at what stood under the ids that `start` stored, in order, and at every entry
      that is `untouched`; up to somewhere, and to the end unless it was cancelled. -/
  looked : ∃ reached beyond, start.entries.toList = reached ++ beyond
    ∧ StandsFor (untouched acts) ((g.along look? acts).map Reading.entry) reached
    ∧ (r.cancelled = false → beyond = [])
  /-- Of these it attempted each that was `due` when it looked, but for the one that it was asleep
      for when it stopped. -/
  attempted : ((g.along look? acts).filter fun l => start.due l.now l.entry).map Reading.entry
    = (g.along attempt? acts).map Prod.fst ++ g.along interrupted? acts
  /-- So the attempts were made on an initial segment of the entries that were `due`, whatever time
      `clock` gives for an entry that the pass has not looked at. -/
  segment : ∀ clock : Entry → Timestamp, (∀ l ∈ g.along look? acts, clock l.entry = l.now) →
    ((g.along attempt? acts).map Prod.fst).filter (fun e => untouched acts e.id)
      <+: start.entries.toList.filter fun e => untouched acts e.id && start.due (clock e) e
  /-- Each attempt was carried through to one outcome. -/
  carried : (g.along attempt? acts).map Prod.fst
    = ((g.along outcome? acts).filter fun v => v.verdict.ofAttempt).map Visit.entry
  /-- Its mutations were handed to the pool in order, and all of them unless it failed. -/
  handed : ∀ e live, (e, live) ∈ g.along attempt? acts →
    ∃ rest, live = queuedOf e (g.along queued? acts) ++ rest
      ∧ (rest = [] ∨ ⟨e, .failed⟩ ∈ g.along outcome? acts)
  /-- Nothing else was handed to the pool. -/
  only : ∀ h ∈ g.along queued? acts, h.1 ∈ (g.along attempt? acts).map Prod.fst
  /-- The report counts each outcome once: `tally`. -/
  counted : ∀ verdict,
    r.tally verdict = (g.along outcome? acts).countP fun v => v.verdict = verdict
  /-- What was scanned has an outcome, unless the pass was interrupted. -/
  scanned : r.scanned
    = r.notYetEligible + r.decodeFailures + r.applyFailures + r.deleteFailures + r.replayed
      + (g.along interrupted? acts).length
  /-- It is `interrupted?` for one entry at most, and then it was cancelled. -/
  interrupted : g.along interrupted? acts = []
    ∨ (∃ e, g.along interrupted? acts = [e]) ∧ r.cancelled = true
  /-- Of what is `untouched` just the replayed entries are gone. -/
  stored : ∀ id, untouched acts id = true → g'.entries.get? id
    = (start.entries.minus (replayedEntries (g.along outcome? acts))).get? id
  /-- In particular an entry that was not attempted is as it was, and nothing of it was handed to
      the pool. -/
  others : ∀ e, start.entries.get? e.id = some e → untouched acts e.id = true →
    e ∉ (g.along attempt? acts).map Prod.fst →
      g'.entries.get? e.id = some e ∧ ∀ h ∈ g.along queued? acts, h.1.id ≠ e.id

/-- A verdict is `ofAttempt` just if the entry was `due` when the pass looked at it. -/
theorem due_of_judged {l : Reading} {v : Visit} (h : start.Judged l v) :
    start.due l.now l.entry = v.verdict.ofAttempt := by
  cases h with
  | tooYoung hage => simp [due, hage, Verdict.ofAttempt]
  | undecodable hage hdecode =>
    simp [due, hdecode, Except.isOk, Except.toBool, Verdict.ofAttempt]
  | attempted haccepts hyoung hdecoded =>
    rename_i e verdict
    obtain ⟨rfl, hage, ms, hdecode⟩ := haccepts
    have hdue : start.due l.now l.entry = true := by
      simp [due, hage, hdecode, Except.isOk, Except.toBool]
    rw [hdue]
    cases verdict <;> first | rfl | contradiction

/-- **Of the entries that the pass is done with** those were `due` whose verdict is `ofAttempt`. -/
theorem filter_due_of_judged {ls : List Reading} {vs : List Visit}
    (h : List.Forall₂ start.Judged ls vs) :
    (ls.filter fun l => start.due l.now l.entry).map Reading.entry
      = (vs.filter fun v => v.verdict.ofAttempt).map Visit.entry := by
  induction h with
  | nil => rfl
  | cons hjudged _ ih =>
    have hentry := map_entry_of_judged (.cons hjudged .nil)
    rw [List.filter_cons, List.filter_cons, due_of_judged hjudged]
    split
    · rw [List.map_cons, List.map_cons, ih, List.cons.inj hentry |>.1]
    · exact ih

/-- What was accepted was `due`. -/
theorem filter_due_of_accepts {ls : List Reading} {es : List Entry}
    (h : List.Forall₂ start.Accepts ls es) :
    (ls.filter fun l => start.due l.now l.entry).map Reading.entry = es := by
  induction h with
  | nil => rfl
  | cons haccepts _ ih =>
    obtain ⟨rfl, hage, ms, hdecode⟩ := haccepts
    rw [List.filter_cons, if_pos (by simp [due, hage, hdecode, Except.isOk, Except.toBool]),
      List.map_cons, ih]

/-- **While no entry is `accepted?`** those that were `due` have the outcome of an attempt, or the
    pass was interrupted for them. -/
theorem Trail.filter_due (h : Trail own start looks visits halts g p)
    (hnone : p.phase.accepted? = none) :
    (looks.filter fun l => start.due l.now l.entry).map Reading.entry
      = (visits.filter fun v => v.verdict.ofAttempt).map Visit.entry ++ halts := by
  obtain ⟨earlier, latest, rfl, hearlier, hlatest⟩ := h.judged
  rw [hnone, Option.toList_none, List.nil_append] at hlatest
  rw [List.filter_append, List.map_append, filter_due_of_judged hearlier,
    filter_due_of_accepts hlatest]

/-- What is in `replayedEntries` was attempted. -/
theorem mem_outcomes_of_replayed (h : e ∈ replayedEntries visits) :
    e ∈ (visits.filter fun v => v.verdict.ofAttempt).map Visit.entry := by
  obtain ⟨v, hv, rfl⟩ := List.mem_map.1 h
  obtain ⟨hv, hreplayed⟩ := List.mem_filter.1 hv
  refine List.mem_map_of_mem (List.mem_filter.2 ⟨hv, ?_⟩)
  rw [of_decide_eq_true hreplayed]
  rfl

/-- **While no entry is `attempted?`** each attempt that was made has its outcome. -/
theorem Hands.outcomes (h : Hands visits attempts queued phase) (hnone : phase.attempted? = none) :
    attempts.map Prod.fst = (visits.filter fun v => v.verdict.ofAttempt).map Visit.entry
      ∧ ∀ e live, (e, live) ∈ attempts →
        ∃ rest, live = queuedOf e queued ++ rest ∧ (rest = [] ∨ ⟨e, .failed⟩ ∈ visits) := by
  obtain ⟨past, current, rfl, houtcomes, hpast, hcurrent, -⟩ := h.made
  rw [hnone] at hcurrent
  obtain rfl := Option.map_eq_none_iff.1 hcurrent
  rw [Option.toList_none, List.append_nil]
  exact ⟨houtcomes, fun e live hmem => hpast (e, live) hmem⟩

/-- What was attempted under an id of `own` is what `start` stored there. -/
theorem eq_of_attempted {reached beyond attempted : List Entry} {e' : Entry}
    (horder : start.entries.toList = reached ++ beyond)
    (hstands : StandsFor own (looks.map Reading.entry) reached)
    (hattempted : (looks.filter fun l => start.due l.now l.entry).map Reading.entry
      = attempted ++ halts)
    (hmem : e' ∈ attempted) (hid : e'.id = e.id) (hown : own e.id = true)
    (hget : start.entries.get? e.id = some e) : e' = e := by
  -- The entry was looked at when it was due, and it was among those reached.
  have hdue : e' ∈ attempted ++ halts := List.mem_append_left _ hmem
  rw [← hattempted] at hdue
  obtain ⟨l, hl, rfl⟩ := List.mem_map.1 hdue
  have hlooked : l.entry ∈ looks.map Reading.entry := List.mem_map_of_mem (List.mem_filter.1 hl).1
  have hreached : l.entry ∈ reached.filter fun e => own e.id := by
    rw [← hstands.same]
    exact List.mem_filter.2 ⟨hlooked, by rw [hid]; exact hown⟩
  have hstored : start.entries.get? l.entry.id = some l.entry := by
    refine Entries.mem_toList_iff.1 ?_
    rw [horder]
    exact List.mem_append_left _ (List.mem_filter.1 hreached).1
  rw [hid, hget] at hstored
  exact (Option.some.inj hstored).symm

/-- **Entries in a row:** what was `due` of the entries looked at is an initial segment of what is
    `due` of all, at a `clock` that agrees with the looks. -/
theorem due_prefix {reached beyond attempted : List Entry} {clock : Entry → Timestamp}
    (horder : start.entries.toList = reached ++ beyond)
    (hstands : StandsFor own (looks.map Reading.entry) reached)
    (hattempted : (looks.filter fun l => start.due l.now l.entry).map Reading.entry
      = attempted ++ halts)
    (hclock : ∀ l ∈ looks, clock l.entry = l.now) :
    attempted.filter (fun e => own e.id)
      <+: start.entries.toList.filter fun e => own e.id && start.due (clock e) e := by
  -- For the entries looked at, the clock tells when they were looked at.
  have hdue : (looks.map Reading.entry).filter (fun e => start.due (clock e) e)
      = attempted ++ halts := by
    rw [← hattempted, List.filter_map]
    refine congrArg _ (List.filter_congr fun l hl => ?_)
    simp only [Function.comp_apply, hclock l hl]
  -- Of the own entries those reached are those looked at, so both are filtered alike.
  have hreached : reached.filter (fun e => own e.id && start.due (clock e) e)
      = attempted.filter (fun e => own e.id) ++ halts.filter fun e => own e.id := by
    calc reached.filter (fun e => own e.id && start.due (clock e) e)
        = (reached.filter fun e => own e.id).filter fun e => start.due (clock e) e := by
          rw [List.filter_filter]
          simp only [Bool.and_comm]
      _ = ((looks.map Reading.entry).filter fun e => start.due (clock e) e).filter
            fun e => own e.id := by
          rw [← hstands.same, List.filter_filter, List.filter_filter]
          simp only [Bool.and_comm]
      _ = _ := by rw [hdue, List.filter_append]
  rw [horder, List.filter_append, hreached, List.append_assoc]
  exact List.prefix_append _ _

/-- **A pass is cut cleanly.** In a journal that was opened with valid settings, over a store that
    was opened on any medium, and that has done whatever it has done: let a pass begin, and let
    anybody do anything until it has come to its report, also ask it to stop at any moment.  Then it
    was cut cleanly: the entries that it attempted are the first of those that were due, each was
    carried through to its outcome, of the others nothing was handed to the pool, and they are
    stored as they were, if nobody else touched them; and what it has scanned has its outcome, but
    for one entry if the pass was asleep for it when it stopped. -/
theorem cut_cleanly_of_run {settings : Settings} {registry : Registry} {store : Store}
    {path : W.State} {strays : List Delivery} {medium left : Medium} {directory : String}
    {options : StoreOptions} {warnings : List Warning}
    (hstore : medium.openWith directory options = (.ok (store, warnings), left))
    {fresh : Journal W} (hfresh : overStore settings registry store path strays = .ok fresh)
    {past : List (Act W)} (hpast : fresh.run past = some start) {ticket : Nat}
    (hbegin : start.step (.pass (.begin ticket)) = some g) (hrun : g.run acts = some g')
    (hstays : ∀ a ∈ acts, a.restarts = false ∧ a ≠ .pass .retire) {r : Report}
    (hpass : g'.pass = some p) (hfinished : p.phase = .finished (.ok r)) :
    start.CutCleanly g acts g' r := by
  obtain ⟨-, rfl⟩ := overStore_eq_ok hfresh
  have hsound := sound_of_run (Store.sound_of_openWith hstore) hpast
  have hown : ∀ id, untouched acts id = true → ∀ a ∈ acts, a.keepsOff id = true :=
    fun id hid => List.all_eq_true.1 hid
  obtain ⟨htrail, hhands⟩ : Trail (untouched acts) start (g.along look? acts)
        (g.along outcome? acts) (g.along interrupted? acts) g' p
      ∧ Hands (g.along outcome? acts) (g.along attempt? acts) (g.along queued? acts) p.phase := by
    -- A pass that broke down does not end with a report.
    cases trail_of_run hsound hbegin hstays hown hrun with
    | broken hpass' hbroken =>
      obtain rfl := Option.some.inj (hpass.symm.trans hpass')
      simp [hfinished, Phase.isBroken] at hbroken
    | sound hpass' htold =>
      obtain rfl := Option.some.inj (hpass.symm.trans hpass')
      exact htold
  have haccepted : p.phase.accepted? = none := by rw [hfinished]; rfl
  obtain ⟨hcarried, hhanded⟩ := hhands.outcomes (by rw [hfinished]; rfl)
  obtain ⟨hreport, hwhole⟩ := htrail.ended r hfinished
  have hcounted := htrail.counted
  have hscanned := htrail.scanned
  rw [hreport] at hcounted hscanned
  -- A pass that was not cancelled reached everything; a cancelled one reached as far as its trail
  -- goes.
  obtain ⟨reached, beyond, horder, hstands, hall⟩ : ∃ reached beyond,
      start.entries.toList = reached ++ beyond
        ∧ StandsFor (untouched acts) ((g.along look? acts).map Reading.entry) reached
        ∧ (r.cancelled = false → beyond = []) := by
    cases hcancelled : r.cancelled with
    | false => exact ⟨_, [], (List.append_nil _).symm, hwhole hcancelled, fun _ => rfl⟩
    | true =>
      obtain ⟨done, next, later, horder, hstands, -⟩ := htrail.order
      exact ⟨done, next ++ later, by rw [horder, List.append_assoc], hstands,
        fun hfull => Bool.noConfusion hfull⟩
  have hattempted := htrail.filter_due haccepted
  rw [← hcarried] at hattempted
  refine
    { looked := ⟨reached, beyond, horder, hstands, hall⟩
      attempted := hattempted
      segment := fun clock hclock => due_prefix horder hstands hattempted hclock
      carried := hcarried
      handed := hhanded
      only := hhands.known
      counted := hcounted
      scanned := ?_
      interrupted := ?_
      stored := htrail.stored
      others := ?_ }
  · -- Each entry looked at has an outcome or was interrupted.
    have hlength : (g.along look? acts).length
        = (g.along outcome? acts).length + (g.along interrupted? acts).length := by
      have hentries := congrArg List.length htrail.entries_eq
      simpa [haccepted] using hentries
    have houtcomes := Report.scanned_of r.pass (g.along outcome? acts) []
    simp only [Report.of, ← hcounted, Report.tally] at houtcomes
    rw [hscanned, hlength, houtcomes]
  · refine htrail.halted.imp_right (And.imp_right ?_)
    rintro ⟨r', hfinished', hcancelled⟩
    obtain rfl := Except.ok.inj (Phase.finished.inj (hfinished.symm.trans hfinished'))
    exact hcancelled
  · -- An entry that nobody touched and that was not attempted is stored as it was.
    intro e hget huntouched hnot
    have hother : ∀ e' ∈ (g.along attempt? acts).map Prod.fst, e'.id ≠ e.id := by
      intro e' he' hid
      exact hnot (eq_of_attempted horder hstands hattempted he' hid huntouched hget ▸ he')
    refine ⟨?_, fun h hh => hother _ (hhands.known h hh)⟩
    rw [htrail.stored _ huntouched, Entries.get?_minus, if_neg, hget]
    intro hreplayed
    obtain ⟨e', he', hid⟩ := List.mem_map.1 hreplayed
    exact hother e' (hcarried ▸ mem_outcomes_of_replayed he') hid

/-- An entry of the counting format, written at `5`, whose id repeats the byte `b`. -/
def entryOf (b : UInt8) (payload : Bytes) : Entry :=
  ⟨⟨List.replicate 16 b, List.length_replicate⟩, ⟨5⟩, ⟨0⟩, payload⟩

/-- A journal of one worker, with three entries stored that carry no mutation, one and one, to be
    replayed at once and at the pace of `throttleKib`. -/
def threeStored (throttleKib : UInt64) : Journal replicaPath :=
  opened
    { Settings.standard with replayTimeout := 0, throttleKib, workers := 1, queueDepth := 1 }
    (.single (.counting ⟨0⟩))
    (.memory (((Entries.empty.put (entryOf 0 [0])).put (entryOf 1 [1])).put (entryOf 2 [1])))
    Replica.empty []

/-- Two entries are replayed, and the pass is asleep for the third one when it is asked to stop. -/
theorem cut_cleanly_of_run_asleep :
    ∃ past acts start g g',
      (threeStored 1).run past = some start ∧ start.step (.pass (.begin 0)) = some g
        ∧ g.run acts = some g'
        ∧ (g.along attempt? acts).map Prod.fst = [entryOf 0 [0], entryOf 1 [1]]
        ∧ g.along interrupted? acts = [entryOf 2 [1]]
        ∧ start.CutCleanly g acts g' ⟨1, 3, 0, 2, 0, 0, 0, 0, 2, true⟩ := by
  let past : List (Act replicaPath) := [.path (.createTable ⟨"toy", "t"⟩), .control (.board none)]
  let acts : List (Act replicaPath) :=
    [.pass .fetch, .pass (.consider ⟨5⟩), .pass (.pace 0), .pass .sort, .pass .offer,
      .pass (.delete none), .pass .fetch, .pass (.consider ⟨5⟩), .pass (.pace 0), .pass .wake,
      .pass .sort, .pass .sort, .pass .offer, .pass .insert, .pass (.rouse none), .pass .offer,
      .worker (.proceed 0), .worker (.apply 0 none), .worker (.report 0), .pass .collect,
      .pass (.delete none), .pass .fetch, .pass (.consider ⟨5⟩), .pass (.pace 0),
      .control (.cancel 0), .pass .wake]
  have hstore : (Medium.memory (((Entries.empty.put (entryOf 0 [0])).put
      (entryOf 1 [1])).put (entryOf 2 [1]))).openWith "" ⟨.always, .zero, 0, default⟩
      = (.ok (.memory _, []), .memory _) := rfl
  have hfresh : @overStore replicaPath
      { Settings.standard with replayTimeout := 0, throttleKib := 1, workers := 1, queueDepth := 1 }
      (.single (.counting ⟨0⟩)) (.memory _) Replica.empty [] = .ok (threeStored 1) := rfl
  -- The run is computed once; what the theorem says of it is then read off.
  obtain ⟨start, g, g', p, hpast, hbegin, hrun, hpass, hfinished, hattempts, hasleep⟩ :
      ∃ (start g g' : Journal replicaPath) (p : Pass),
        (threeStored 1).run past = some start ∧ start.step (.pass (.begin 0)) = some g
          ∧ g.run acts = some g' ∧ g'.pass = some p
          ∧ p.phase = .finished (.ok ⟨1, 3, 0, 2, 0, 0, 0, 0, 2, true⟩)
          ∧ (g.along attempt? acts).map Prod.fst = [entryOf 0 [0], entryOf 1 [1]]
          ∧ g.along interrupted? acts = [entryOf 2 [1]] :=
    ⟨_, _, _, _, rfl, rfl, rfl, rfl, rfl, rfl, rfl⟩
  have hstays : ∀ a ∈ acts, a.restarts = false ∧ a ≠ .pass .retire := by
    simp [acts, Act.restarts]
  exact ⟨past, acts, start, g, g', hpast, hbegin, hrun, hattempts, hasleep,
    cut_cleanly_of_run hstore hfresh hpast hbegin hrun hstays hpass hfinished⟩

/-- **There may be nothing to hand over:** the first entry carries no mutation and is replayed, the
    second one goes to the pool, and the pass is asked to stop.  So what was handed to the pool is
    not an initial segment of what was due, and of the first entry nothing was handed over and yet
    it is gone. -/
theorem nothing_handed_over :
    ∃ past acts start g g' p r,
      (threeStored 0).settings.validate = .ok () ∧ (threeStored 0).run past = some start
        ∧ start.step (.pass (.begin 0)) = some g ∧ g.run acts = some g'
        ∧ (∀ a ∈ acts, a.restarts = false ∧ a ≠ .pass .retire ∧ ∀ id, a.keepsOff id = true)
        ∧ g'.pass = some p ∧ p.phase = .finished (.ok r) ∧ r.cancelled = true
        ∧ (∀ l ∈ g.along look? acts, l.now = ⟨5⟩)
        ∧ (¬ ∃ n, ∀ e, e ∈ (g.along queued? acts).map Prod.fst
            ↔ e ∈ (start.entries.toList.filter (start.due ⟨5⟩)).take n)
        ∧ ¬ ∀ e, start.entries.get? e.id = some e → e ∉ (g.along queued? acts).map Prod.fst →
            g'.entries.get? e.id = some e := by
  let past : List (Act replicaPath) := [.path (.createTable ⟨"toy", "t"⟩), .control (.board none)]
  let acts : List (Act replicaPath) :=
    [.pass .fetch, .pass (.consider ⟨5⟩), .pass .sort, .pass .offer, .pass (.delete none),
      .pass .fetch, .pass (.consider ⟨5⟩), .pass .sort, .pass .sort, .pass .offer, .pass .insert,
      .pass (.rouse none), .pass .offer, .control (.cancel 0), .worker (.proceed 0),
      .worker (.apply 0 none), .worker (.report 0), .pass .collect, .pass (.delete none),
      .pass .fetch, .pass (.consider ⟨5⟩)]
  let first : Entry := entryOf 0 [0]
  let second : Entry := entryOf 1 [1]
  let third : Entry := entryOf 2 [1]
  have hdistinct : first ≠ second := fun h => absurd (congrArg Entry.id h) (by decide)
  obtain ⟨start, g, g', p, r, hpast, hbegin, hrun, hpass, hfinished, hcancelled, hlooks, hqueued,
      hdue, hget, hgone⟩ : ∃ (start g g' : Journal replicaPath) (p : Pass) (r : Report),
        (threeStored 0).run past = some start ∧ start.step (.pass (.begin 0)) = some g
          ∧ g.run acts = some g' ∧ g'.pass = some p ∧ p.phase = .finished (.ok r)
          ∧ r.cancelled = true ∧ g.along look? acts = [⟨first, ⟨5⟩⟩, ⟨second, ⟨5⟩⟩]
          ∧ (g.along queued? acts).map Prod.fst = [second]
          ∧ start.entries.toList.filter (start.due ⟨5⟩) = [first, second, third]
          ∧ start.entries.get? first.id = some first ∧ g'.entries.get? first.id = none :=
    ⟨_, _, _, _, _, rfl, rfl, rfl, rfl, rfl, rfl, rfl, rfl, rfl, rfl, rfl⟩
  refine ⟨past, acts, start, g, g', p, r, rfl, hpast, hbegin, hrun, ?_, hpass, hfinished,
    hcancelled, ?_, ?_, ?_⟩
  · simp [acts, Act.restarts, Act.keepsOff]
  · rw [hlooks]
    simp
  · rintro ⟨n, hn⟩
    rw [hqueued, hdue] at hn
    -- If the second entry is among them, so is the first.
    have hsecond := (hn second).1 (List.mem_singleton_self _)
    have hfirst : first ∈ [first, second, third].take n := by
      cases n with
      | zero => simp at hsecond
      | succ n => exact List.mem_cons_self
    exact hdistinct (List.mem_singleton.1 ((hn first).2 hfirst))
  · intro hkept
    have hstill := hkept first hget (by rw [hqueued]; exact fun h => hdistinct (by simpa using h))
    rw [hgone] at hstill
    simp at hstill

end Journal

end BatchJournal
