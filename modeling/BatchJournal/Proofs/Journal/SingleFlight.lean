import BatchJournal.Proofs.Journal.PassMoves
import BatchJournal.Proofs.Journal.Steps

namespace BatchJournal

/-!
# One pass at a time

Passes are asked for by clients and by the scheduler, asked to stop by anybody who holds a ticket,
and brought to an end by themselves; all of this goes on while the journal is shut down.  The
tickets stay in order throughout: there is never more than one whose pass is not over, and it is
the latest.

* `Flight.Start` — the four ways in which a call for a pass can end.
* `Flight.Orderly` — the order of the tickets, kept by every move (`Flight.Moves`).
* `Control.AdvanceMove` — the steps of a caller, place by place.
* `Controller.Vouched` — what a caller of the shutdown can count on at each place.
* `Journal.single_flight` — one pass at a time, one result for all who hold its ticket, and none
  once the shutdown is over.
-/

namespace Flight

variable {f f' : Flight} {i j : Nat} {t : Ticket} {obstacle : Option String}

/-! ### Tickets -/

theorem ticket?_issue (f : Flight) (t : Ticket) (i : Nat) :
    (f.issue t).ticket? i = if i = f.tickets.length then some t else f.ticket? i := by
  show (f.tickets ++ [t])[i]? = _
  by_cases hi : i = f.tickets.length
  · rw [if_pos hi, hi, List.getElem?_concat_length]
  · rw [if_neg hi, List.getElem?_append]
    split
    · rfl
    · -- Behind the new ticket there is none, as there was none before.
      have hbeyond : f.tickets.length ≤ i := by omega
      have hgap : 0 < i - f.tickets.length := by omega
      rw [show f.ticket? i = none from List.getElem?_eq_none hbeyond]
      exact List.getElem?_eq_none hgap

theorem ticket?_update (f : Flight) (i : Nat) (change : Ticket → Ticket) (j : Nat) :
    (f.update i change).ticket? j = if i = j then (f.ticket? j).map change else f.ticket? j := by
  show (f.tickets.modify i change)[j]? = _
  rw [List.getElem?_modify]
  by_cases hij : i = j
  · simp [hij, ticket?]
  · simp [hij, ticket?]

/-- **No pass is unfinished:** every ticket is `finished`. -/
def Idle (f : Flight) : Prop := ∀ i t, f.ticket? i = some t → t.finished = true

/-- **Tickets in order:** their numbers count up from `1`, and a pass that is not over has a thread
    and the latest ticket. -/
structure Orderly (f : Flight) : Prop where
  /-- The number of a ticket is its place, counted from one. -/
  numbered : ∀ i t, f.ticket? i = some t → t.number = i + 1
  /-- As many numbers were `given` out as there are tickets. -/
  given : f.given = f.tickets.length
  /-- Where no thread was `spawned` the pass is over at once. -/
  threaded : ∀ i t, f.ticket? i = some t → t.finished = false → t.spawned = true
  /-- An unfinished pass is the one in the `slot`. -/
  latest : ∀ i t, f.ticket? i = some t → t.finished = false → f.slot = some i

theorem orderly_fresh : fresh.Orderly :=
  ⟨by simp [fresh, ticket?], rfl, by simp [fresh, ticket?], by simp [fresh, ticket?]⟩

/-! ### Asking for a pass -/

/-- **What a call for a pass comes to:** the ticket, whether a pass is to be run for it, and the
    flight after that. -/
inductive Start (f : Flight) : Nat × Bool × Flight → Prop where
  /-- The pass of the latest ticket is not over, and the caller joins it. -/
  | joined {i : Nat} {t : Ticket} (hticket : f.ticket? i = some t) (hopen : t.finished = false)
      (hslot : f.slot = some i) : Start f (i, false, f)
  /-- The journal is shut down. -/
  | refused (hidle : f.joinable = none) (hclosed : f.closed = true) :
      Start f (f.tickets.length, false,
        f.issue ⟨f.given + 1, .fresh, some (.error .shutDown), false⟩)
  /-- No thread can be started. -/
  | unspawned {reason : String} (hidle : f.joinable = none) (hopen : f.closed = false) :
      Start f (f.tickets.length, false,
        { f.issue ⟨f.given + 1, .fresh, some (.error (.spawn reason)), false⟩ with
          slot := some f.tickets.length })
  /-- A pass is started. -/
  | spawned (hidle : f.joinable = none) (hopen : f.closed = false) :
      Start f (f.tickets.length, true,
        { f.issue ⟨f.given + 1, .fresh, none, true⟩ with slot := some f.tickets.length })

theorem start_cases (f : Flight) (obstacle : Option String) : f.Start (f.start obstacle) := by
  unfold start
  cases hjoinable : f.joinable with
  | some i =>
    obtain ⟨hslot, hany⟩ := Option.filter_eq_some_iff.1 hjoinable
    obtain ⟨t, hticket, hopen⟩ := (Option.any_eq_true _ _).1 hany
    exact .joined hticket (by simpa using hopen) hslot
  | none =>
    cases hclosed : f.closed with
    | true => exact .refused hjoinable hclosed
    | false =>
      cases obstacle with
      | some reason => exact .unspawned hjoinable hclosed
      | none => exact .spawned hjoinable hclosed

/-- Where nothing is `joinable`, no pass is unfinished. -/
theorem Orderly.idle (h : f.Orderly) (hnone : f.joinable = none) : f.Idle := by
  intro i t hticket
  cases hfinished : t.finished with
  | true => rfl
  | false =>
    have hslot := h.latest i t hticket hfinished
    simp [joinable, hslot, hticket, hfinished] at hnone

/-- **An unfinished pass is joined,** and `start` changes nothing. -/
theorem Orderly.start_eq (h : f.Orderly) (hticket : f.ticket? i = some t)
    (hopen : t.finished = false) : f.start obstacle = (i, false, f) := by
  have hjoinable : f.joinable = some i := by
    simp [joinable, h.latest i t hticket hopen, hticket, hopen]
  simp only [start, hjoinable]

/-- Once the flight is `closed` and `Idle`, a call gets a ticket that says `shutDown`. -/
theorem start_of_closed (hidle : f.Idle) (hclosed : f.closed = true) :
    f.start obstacle = (f.tickets.length, false,
      f.issue ⟨f.given + 1, .fresh, some (.error .shutDown), false⟩) := by
  have hstart := f.start_cases obstacle
  generalize f.start obstacle = result at hstart
  cases hstart with
  | joined hticket hopen =>
    rw [hidle _ _ hticket] at hopen
    simp at hopen
  | refused => rfl
  | unspawned _ hopen | spawned _ hopen =>
    rw [hclosed] at hopen
    simp at hopen

/-! ### Moves -/

/-- **What a step can do to the tickets,** and which pass comes to its end in it. -/
inductive Moves (f : Flight) : Option Nat → Flight → Prop where
  /-- Nothing. -/
  | still : Moves f none f
  /-- A pass is asked for. -/
  | started (obstacle : Option String) : Moves f none (f.start obstacle).2.2
  /-- A pass is asked to stop. -/
  | cancelled (i : Nat) : Moves f none (f.cancel i)
  /-- A pass that is under way ends with the result `r`. -/
  | completed {i : Nat} {t : Ticket} (r : PassResult) (hticket : f.ticket? i = some t)
      (hunderway : t.underway = true) : Moves f (some i) (f.complete i r)
  /-- The journal is marked as shut down. -/
  | closing : Moves f none f.close

variable {ended : Option Nat}

/-- **Every ticket stays,** with its number and its thread; and its result stays what it is, but
    that the end of its pass gives it the first one. -/
theorem Moves.kept (h : f.Moves ended f') (hticket : f.ticket? i = some t) :
    ∃ t', f'.ticket? i = some t' ∧ t'.number = t.number ∧ t'.spawned = t.spawned
      ∧ (t'.result = t.result ∨ ended = some i ∧ t.result = none) := by
  -- Tickets keep their places, so the position still names this one.
  cases h with
  | still | closing => exact ⟨t, hticket, rfl, rfl, .inl rfl⟩
  | started obstacle =>
    have hstart := f.start_cases obstacle
    generalize f.start obstacle = result at hstart
    have hlt : i < f.tickets.length := (List.getElem?_eq_some_iff.1 hticket).1
    have hissue : ∀ new, (f.issue new).ticket? i = some t := fun new => by
      rw [ticket?_issue, if_neg (by omega), hticket]
    cases hstart with
    | joined => exact ⟨t, hticket, rfl, rfl, .inl rfl⟩
    | refused | unspawned | spawned => exact ⟨t, hissue _, rfl, rfl, .inl rfl⟩
  | cancelled j =>
    by_cases hij : j = i
    · refine ⟨{ t with cancellation := t.cancellation.request }, ?_, rfl, rfl, .inl rfl⟩
      rw [cancel, ticket?_update, if_pos hij, hticket]
      rfl
    · exact ⟨t, by rw [cancel, ticket?_update, if_neg hij, hticket], rfl, rfl, .inl rfl⟩
  | @completed j t' r hticket' hunderway =>
    by_cases hij : j = i
    · subst hij
      obtain rfl := Option.some.inj (hticket'.symm.trans hticket)
      -- A pass under way has no result yet, and this one is its first.
      have hnone : t'.result = none := by
        simpa [Ticket.underway, Ticket.finished] using (Bool.and_eq_true_iff.1 hunderway).2
      refine ⟨{ t' with result := t'.result.or (some r) }, ?_, rfl, rfl, .inr ⟨rfl, hnone⟩⟩
      rw [complete, ticket?_update, if_pos rfl, hticket']
      rfl
    · exact ⟨t, by rw [complete, ticket?_update, if_neg hij, hticket], rfl, rfl, .inl rfl⟩

/-- `closed` stays. -/
theorem Moves.closed (h : f.Moves ended f') (hclosed : f.closed = true) : f'.closed = true := by
  cases h with
  | started obstacle =>
    have hstart := f.start_cases obstacle
    generalize f.start obstacle = result at hstart
    cases hstart <;> exact hclosed
  | still | cancelled | completed => exact hclosed
  | closing => rfl

/-- An `Idle` flight with a ticket more is `Orderly` if the ticket has the next number and, should
    its pass be unfinished, a thread and the slot. -/
theorem Orderly.issue (h : f.Orderly) (hidle : f.Idle) {slot : Option Nat}
    (hnumber : t.number = f.given + 1)
    (hopen : t.finished = false → t.spawned = true ∧ slot = some f.tickets.length) :
    Orderly { f.issue t with slot } := by
  -- A ticket of the new flight is the new one or was there before.
  have hticket : ∀ {i t'}, Flight.ticket? { f.issue t with slot } i = some t' →
      i = f.tickets.length ∧ t' = t ∨ f.ticket? i = some t' := by
    intro i t' hsome
    have hissue : (f.issue t).ticket? i = some t' := hsome
    rw [ticket?_issue] at hissue
    split at hissue
    · exact .inl ⟨‹_›, (Option.some.inj hissue).symm⟩
    · exact .inr hissue
  constructor
  · intro i t' hsome
    rcases hticket hsome with ⟨rfl, rfl⟩ | hold
    · rw [hnumber, h.given]
    · exact h.numbered i t' hold
  · show f.given + 1 = (f.tickets ++ [t]).length
    rw [List.length_append, h.given]
    rfl
  · intro i t' hsome hunfinished
    rcases hticket hsome with ⟨rfl, rfl⟩ | hold
    · exact (hopen hunfinished).1
    · -- The tickets from before are over, so the condition is about the new one only.
      exact absurd (hidle i t' hold) (by simp [hunfinished])
  · intro i t' hsome hunfinished
    rcases hticket hsome with ⟨rfl, rfl⟩ | hold
    · exact (hopen hunfinished).2
    · exact absurd (hidle i t' hold) (by simp [hunfinished])

/-- An `Orderly` flight with one ticket changed stays so if no pass is unfinished that was not. -/
theorem Orderly.update (h : f.Orderly) (i : Nat) {change : Ticket → Ticket}
    (hchange : ∀ t, (change t).number = t.number ∧ (change t).spawned = t.spawned
      ∧ ((change t).finished = false → t.finished = false)) : (f.update i change).Orderly := by
  -- Every ticket of the new flight stands for one of the old, at the same position.
  have hticket : ∀ {j t'}, (f.update i change).ticket? j = some t' →
      ∃ t, f.ticket? j = some t ∧ t'.number = t.number ∧ t'.spawned = t.spawned
        ∧ (t'.finished = false → t.finished = false) := by
    intro j t' hsome
    rw [ticket?_update] at hsome
    split at hsome
    · obtain ⟨t, hold, rfl⟩ := Option.map_eq_some_iff.1 hsome
      exact ⟨t, hold, hchange t⟩
    · exact ⟨t', hsome, rfl, rfl, fun hunfinished => hunfinished⟩
  constructor
  · intro j t' hsome
    obtain ⟨t, hold, hnumber, -, -⟩ := hticket hsome
    rw [hnumber, h.numbered j t hold]
  · show f.given = (f.tickets.modify i change).length
    rw [List.length_modify, h.given]
  · intro j t' hsome hunfinished
    obtain ⟨t, hold, -, hspawned, hopen⟩ := hticket hsome
    rw [hspawned, h.threaded j t hold (hopen hunfinished)]
  · intro j t' hsome hunfinished
    obtain ⟨t, hold, -, -, hopen⟩ := hticket hsome
    exact h.latest j t hold (hopen hunfinished)

/-- **Every one of `Moves` keeps `Orderly`.** -/
theorem Moves.orderly (h : f.Moves ended f') (hf : f.Orderly) : f'.Orderly := by
  cases h with
  | still => exact hf
  | started obstacle =>
    have hstart := f.start_cases obstacle
    generalize f.start obstacle = result at hstart
    cases hstart with
    | joined => exact hf
    | refused hnone | unspawned hnone =>
      refine hf.issue (hf.idle hnone) rfl fun hopen => ?_
      simp [Ticket.finished] at hopen
    | spawned hnone => exact hf.issue (hf.idle hnone) rfl fun _ => ⟨rfl, rfl⟩
  | cancelled i => exact hf.update i fun t => ⟨rfl, rfl, fun hopen => hopen⟩
  | completed r =>
    refine hf.update _ fun t => ⟨rfl, rfl, fun hopen => ?_⟩
    simp [Ticket.finished] at hopen
  | closing => exact ⟨hf.numbered, hf.given, hf.threaded, hf.latest⟩

/-- **After the shutdown** the `slot` stays as it is, and `Idle` stays. -/
theorem Moves.slot_of_closed (h : f.Moves ended f') (hclosed : f.closed = true) :
    f'.slot = f.slot := by
  cases h with
  | started obstacle =>
    have hstart := f.start_cases obstacle
    generalize f.start obstacle = result at hstart
    cases hstart with
    | joined | refused => rfl
    | unspawned _ hopen | spawned _ hopen =>
      rw [hclosed] at hopen
      simp at hopen
  | still | cancelled | completed | closing => rfl

theorem Moves.idle_of_closed (h : f.Moves ended f') (hclosed : f.closed = true) (hidle : f.Idle) :
    f'.Idle := by
  -- A change that finishes no less than before leaves the flight idle.
  have hupdate : ∀ i (change : Ticket → Ticket),
      (∀ t, t.finished = true → (change t).finished = true) → (f.update i change).Idle := by
    intro i change hchange j t hsome
    rw [ticket?_update] at hsome
    split at hsome
    · obtain ⟨t', hold, rfl⟩ := Option.map_eq_some_iff.1 hsome
      exact hchange t' (hidle j t' hold)
    · exact hidle j t hsome
  cases h with
  | still | closing => exact hidle
  -- A closed flight issues tickets that are refused, and these are finished at once.
  | started obstacle =>
    rw [start_of_closed hidle hclosed]
    intro i t hsome
    rw [ticket?_issue] at hsome
    split at hsome
    · rw [← Option.some.inj hsome]
      rfl
    · exact hidle i t hsome
  | cancelled i => exact hupdate i _ fun t hfinished => hfinished
  | completed r =>
    refine hupdate _ _ fun t hfinished => ?_
    obtain ⟨r', hr'⟩ := Option.isSome_iff_exists.1 hfinished
    simp [Ticket.finished, hr']

end Flight

/-! ### Callers of the shutdown -/

/-- **What a caller can count on** where it stands: from the mark on that the journal is `closed`;
    while it waits for a pass, that this pass is the latest; and behind that, that the flight is
    `Idle`. -/
def Controller.Vouched (f : Flight) : Controller → Prop
  | .checking | .installing | .installed _ | .unscheduled _ | .marking | .shut false => True
  | .boarding => f.closed = true
  | .awaiting i => f.closed = true ∧ f.slot = some i
  | .removing | .joining _ | .releasing | .shut true => f.closed = true ∧ f.Idle

namespace Control

variable {c c' : Control} {i : Nat}

/-- `Moves` keep `Vouched`. -/
theorem vouched_of_moves {f f' : Flight} {ended : Option Nat} {caller : Controller}
    (h : f.Moves ended f') (hcaller : caller.Vouched f) : caller.Vouched f' := by
  cases caller with
  | checking | installing | installed | unscheduled | marking => trivial
  | boarding => exact h.closed hcaller
  | awaiting i =>
    obtain ⟨hclosed, hslot⟩ := hcaller
    exact ⟨h.closed hclosed, (h.slot_of_closed hclosed).trans hslot⟩
  | removing | joining | releasing =>
    obtain ⟨hclosed, hidle⟩ := hcaller
    exact ⟨h.closed hclosed, h.idle_of_closed hclosed hidle⟩
  | shut first =>
    cases first with
    | false => trivial
    | true =>
      obtain ⟨hclosed, hidle⟩ := hcaller
      exact ⟨h.closed hclosed, h.idle_of_closed hclosed hidle⟩

/-- **A step of a caller,** place by place: `c.AdvanceMove i c'`. -/
inductive AdvanceMove (c : Control) (i : Nat) : Control → Prop where
  /-- It looks whether the journal is `closed`. -/
  | looks (hold : c.callers[i]? = some .checking) :
      AdvanceMove c i (c.move i (if c.closed then .installed false else .installing))
  /-- It finds a scheduler in the place. -/
  | finds {k : Nat} (hold : c.callers[i]? = some .installing) (hplace : c.place = some k) :
      AdvanceMove c i (c.move i (.installed true))
  /-- It fills the place. -/
  | installs (hold : c.callers[i]? = some .installing) (hplace : c.place = none) :
      AdvanceMove c i { c.move i (.installed true) with
        schedulers := c.schedulers ++ [⟨false, .sleeping⟩], place := some c.schedulers.length }
  /-- It finds the journal marked. -/
  | comesLate (hold : c.callers[i]? = some .marking) (hclosed : c.closed = true) :
      AdvanceMove c i (c.move i (.shut false))
  /-- It is the first to mark the journal. -/
  | marks (hold : c.callers[i]? = some .marking) (hopen : c.closed = false) :
      AdvanceMove c i { c.move i .boarding with flight := c.flight.close }
  /-- It finds no ticket. -/
  | findsNone (hold : c.callers[i]? = some .boarding) (hslot : c.flight.slot = none) :
      AdvanceMove c i (c.move i .removing)
  /-- It cancels the pass of the latest ticket. -/
  | boards {t : Nat} (hold : c.callers[i]? = some .boarding) (hslot : c.flight.slot = some t) :
      AdvanceMove c i { c.move i (.awaiting t) with flight := c.flight.cancel t }
  /-- The pass that it waited for is over. -/
  | outwaits {t : Nat} (hold : c.callers[i]? = some (.awaiting t))
      (hdone : c.ticketDone t = true) : AdvanceMove c i (c.move i .removing)
  /-- It finds the place empty. -/
  | passesBy (hold : c.callers[i]? = some .removing) (hplace : c.place = none) :
      AdvanceMove c i (c.move i .releasing)
  /-- It empties the place. -/
  | removes {k : Nat} (hold : c.callers[i]? = some .removing) (hplace : c.place = some k) :
      AdvanceMove c i { c.move i (.joining k) with
        place := none
        schedulers := c.schedulers.modify k fun s => { s with stopping := true } }
  /-- The scheduler that it waited for has ended. -/
  | joins {k : Nat} {s : Scheduler} (hold : c.callers[i]? = some (.joining k))
      (hscheduler : c.schedulers[k]? = some s) (hended : s.beat = .ended) :
      AdvanceMove c i (c.move i .releasing)
  /-- It is done. -/
  | releases (hold : c.callers[i]? = some .releasing) : AdvanceMove c i (c.move i (.shut true))

/-- `advance` is an `AdvanceMove`. -/
theorem advanceMove_of_advance (h : c.advance i = some c') : c.AdvanceMove i c' := by
  cases hold : c.callers[i]? with
  | none => simp [advance, hold] at h
  | some old =>
    simp only [advance, hold] at h
    cases old with
    | checking =>
      obtain rfl := Option.some.inj h
      exact .looks hold
    | installing =>
      simp only at h
      split at h
      · simp at h
      · split at h <;> obtain rfl := Option.some.inj h
        · exact .finds hold ‹_›
        · exact .installs hold ‹_›
    | marking =>
      simp only at h
      split at h <;> obtain rfl := Option.some.inj h
      · exact .comesLate hold ‹_›
      · exact .marks hold (Bool.eq_false_iff.2 ‹_›)
    | boarding =>
      simp only at h
      split at h <;> obtain rfl := Option.some.inj h
      · exact .findsNone hold ‹_›
      · exact .boards hold ‹_›
    | awaiting t =>
      simp only at h
      split at h
      · obtain rfl := Option.some.inj h
        exact .outwaits hold ‹_›
      · simp at h
    | removing =>
      simp only at h
      split at h <;> obtain rfl := Option.some.inj h
      · exact .passesBy hold ‹_›
      · exact .removes hold ‹_›
    | joining k =>
      simp only at h
      split at h
      · rename_i hended
        obtain rfl := Option.some.inj h
        obtain ⟨s, hscheduler, hbeat⟩ := (Option.any_eq_true _ _).1 hended
        exact .joins hold hscheduler (of_decide_eq_true hbeat)
      · simp at h
    | releasing =>
      obtain rfl := Option.some.inj h
      exact .releases hold
    -- These callers are done and have no step.
    | installed | unscheduled | shut => simp at h

/-- **A step of a caller** takes it to a place where it can count on what is `Vouched` for there. -/
theorem advance_cases (h : c.advance i = some c') :
    c.flight.Moves none c'.flight
      ∧ ∃ old new, c.callers[i]? = some old ∧ c'.callers = c.callers.set i new
        ∧ (c.flight.Orderly → old.Vouched c.flight → new.Vouched c'.flight) := by
  cases advanceMove_of_advance h with
  | looks hold =>
    refine ⟨.still, _, _, hold, rfl, fun _ _ => ?_⟩
    split <;> trivial
  | finds hold | installs hold | comesLate hold =>
    exact ⟨.still, _, _, hold, rfl, fun _ _ => trivial⟩
  | marks hold => exact ⟨.closing, _, _, hold, rfl, fun _ _ => rfl⟩
  | findsNone hold hslot =>
    refine ⟨.still, _, _, hold, rfl, fun horderly hclosed => ⟨hclosed, ?_⟩⟩
    -- An unfinished pass would be in the slot, and the slot is empty.
    intro j t hticket
    by_contra hopen
    have hlatest := horderly.latest j t hticket (Bool.eq_false_iff.2 hopen)
    rw [hslot] at hlatest
    simp at hlatest
  | boards hold hslot => exact ⟨.cancelled _, _, _, hold, rfl, fun _ hclosed => ⟨hclosed, hslot⟩⟩
  | outwaits hold hdone =>
    refine ⟨.still, _, _, hold, rfl, ?_⟩
    rintro horderly ⟨hclosed, hslot⟩
    refine ⟨hclosed, fun k t (hticket : c.flight.ticket? k = some t) => ?_⟩
    by_contra hopen
    -- The pass that was awaited is the latest, and it is over.
    have hlatest := horderly.latest k t hticket (Bool.eq_false_iff.2 hopen)
    rw [hslot] at hlatest
    obtain rfl := Option.some.inj hlatest
    simp only [ticketDone, hticket, Option.any_some] at hdone
    exact hopen hdone
  | passesBy hold | removes hold | joins hold | releases hold =>
    exact ⟨.still, _, _, hold, rfl, fun _ hvouched => hvouched⟩

/-- A caller that cannot start its scheduler goes to a place where it can count on nothing. -/
theorem thwart_cases {reason : String} (h : c.thwart i reason = some c') :
    c.callers[i]? = some .installing ∧ c.place = none ∧ c.locked = false
      ∧ c' = c.move i (.unscheduled reason) := by
  simp only [thwart] at h
  split at h
  · split at h
    · simp at h
    · rename_i hold hplace hunlocked
      exact ⟨hold, hplace, by simpa using hunlocked, (Option.some.inj h).symm⟩
  · simp at h

/-- **A step of a scheduler** that has not ended can ask for a pass, and changes nobody else. -/
theorem beat_cases {k : Nat} {obstacle : Option String} (h : c.beat k obstacle = some c') :
    ∃ old new f, c.schedulers[k]? = some old ∧ old.beat ≠ .ended ∧ new.stopping = old.stopping
      ∧ (f = c.flight ∨ f = (c.flight.start obstacle).2.2)
      ∧ c' = { c.reset k new with flight := f } := by
  simp only [beat] at h
  split at h
  · rename_i stopping hold
    exact ⟨_, ⟨stopping, _⟩, _, hold, by simp, by rfl, .inl rfl, (Option.some.inj h).symm⟩
  · rename_i stopping hold
    exact ⟨_, ⟨stopping, _⟩, _, hold, by simp, by rfl, .inr rfl, (Option.some.inj h).symm⟩
  · rename_i stopping t hold
    split at h
    · exact ⟨_, ⟨stopping, _⟩, _, hold, by simp, by rfl, .inl rfl, (Option.some.inj h).symm⟩
    · simp at h
  · simp at h
  · simp at h

/-- **A control in order:** its flight is `Orderly`, and every caller is `Vouched` for. -/
structure Orderly (c : Control) : Prop where
  /-- The tickets are in order. -/
  flight : c.flight.Orderly
  /-- Every caller can count on it. -/
  vouched : ∀ caller ∈ c.callers, caller.Vouched c.flight

theorem orderly_fresh : fresh.Orderly := ⟨Flight.orderly_fresh, by simp [fresh]⟩

/-- The ticket whose pass ends with a move. -/
def Move.ends : Move → Option Nat
  | .complete i _ => some i
  | _ => none

/-- **One step of anybody** is one of the `Moves` of the flight, and keeps `Orderly`. -/
theorem moves_of_step {move : Move} (h : c.step move = some c') :
    c.flight.Moves move.ends c'.flight := by
  cases move with
  | board obstacle =>
    -- A joined pass changes nothing, else there is one more ticket: `Moves.started` covers both.
    obtain rfl := Option.some.inj h
    exact .started obstacle
  | cancel i =>
    obtain rfl := Option.some.inj h
    exact .cancelled i
  | complete i r =>
    simp only [step] at h
    split at h
    · rename_i hunderway
      obtain rfl := Option.some.inj h
      obtain ⟨t, hticket, ht⟩ := (Option.any_eq_true _ _).1 hunderway
      exact .completed r hticket ht
    · simp at h
  | install | shutDown =>
    obtain rfl := Option.some.inj h
    exact .still
  | advance i => exact (advance_cases h).1
  | thwart i reason =>
    obtain ⟨-, -, -, rfl⟩ := thwart_cases h
    exact .still
  | beat k obstacle =>
    obtain ⟨-, new, f, -, -, -, hflight, rfl⟩ := beat_cases h
    rcases hflight with rfl | rfl
    · exact .still
    · exact .started obstacle

theorem Orderly.step (hc : c.Orderly) {move : Move} (h : c.step move = some c') : c'.Orderly := by
  have hmoves := moves_of_step h
  refine ⟨hmoves.orderly hc.flight, fun caller hcaller => ?_⟩
  -- A caller who was there before keeps what it had; one who has come can count on nothing yet.
  have hkept : caller ∈ c.callers → caller.Vouched c'.flight := fun hold =>
    vouched_of_moves hmoves (hc.vouched caller hold)
  have hnew : ∀ newcomer : Controller, newcomer.Vouched c'.flight →
      caller ∈ c.callers ++ [newcomer] → caller.Vouched c'.flight := by
    intro newcomer hvouched hmem
    rcases List.mem_append.1 hmem with hold | hlast
    · exact hkept hold
    · rw [List.mem_singleton.1 hlast]
      exact hvouched
  cases move with
  | board | cancel =>
    obtain rfl := Option.some.inj h
    exact hkept hcaller
  | complete i r =>
    simp only [Control.step] at h
    split at h
    · obtain rfl := Option.some.inj h
      exact hkept hcaller
    · simp at h
  | install =>
    obtain rfl := Option.some.inj h
    exact hnew .checking trivial hcaller
  | shutDown =>
    obtain rfl := Option.some.inj h
    exact hnew .marking trivial hcaller
  | advance i =>
    obtain ⟨-, old, new, hold, hset, hnext⟩ := advance_cases h
    rw [hset] at hcaller
    rcases List.mem_or_eq_of_mem_set hcaller with hother | rfl
    · exact hkept hother
    · exact hnext hc.flight (hc.vouched old (List.mem_of_getElem? hold))
  | thwart i reason =>
    obtain ⟨-, -, -, rfl⟩ := thwart_cases h
    rcases List.mem_or_eq_of_mem_set hcaller with hother | rfl
    · exact hkept hother
    · trivial
  | beat k obstacle =>
    obtain ⟨-, new, f, -, -, -, -, rfl⟩ := beat_cases h
    exact hkept hcaller

end Control

/-! ### The journal -/

/-- The act ends the journal and opens it again. -/
def Act.restarts {W : WritePath} : Act W → Bool
  | .restart _ _ => true
  | _ => false

namespace Journal

variable {W : WritePath} {g g' : Journal W}

/-- **What one act does to the tickets and to the pass.** -/
inductive Turns (g g' : Journal W) : Prop where
  /-- The tickets stay, and no pass begins or ends. -/
  | aside (hcontrol : g'.control = g.control)
      (hpass : g'.pass.map Pass.ticket = g.pass.map Pass.ticket)
  /-- Somebody asks for a pass or for its stop, or starts or ends the scheduler or the journal. -/
  | moved {move : Control.Move} (hmove : g.control.step move = some g'.control)
      (hends : move.ends = none) (hpass : g'.pass = g.pass)
  /-- A pass begins. -/
  | began {ticket : Nat} (hcontrol : g'.control = g.control) (hfree : g.pass = none)
      (hunderway : g.control.underway ticket = true) (hpass : g'.pass.map Pass.ticket = some ticket)
  /-- The pass gives its result to all who hold its ticket, and is gone. -/
  | retired {p : Pass} {r : PassResult} (hpass : g.pass = some p) (hphase : p.phase = .finished r)
      (hmove : g.control.step (.complete p.ticket r) = some g'.control) (hgone : g'.pass = none)

/-- A step of the pass does not touch the tickets before `retire`. -/
theorem turns_of_passStep {p : Pass} (hpass : g.pass = some p) {act : PassAct}
    (h : g.passStep p act = some g') : g.Turns g' := by
  have hmove := passStep_cases h
  cases hmove with
  | retired =>
    simp only [passStep] at h
    split at h
    · rename_i r hphase
      obtain ⟨control, hstep, heq⟩ := Option.map_eq_some_iff.1 h
      obtain rfl : control = _ := congrArg Journal.control heq
      exact .retired hpass hphase hstep rfl
    · simp at h
  | deleted _ hdelete | undeleted _ hdelete =>
    obtain ⟨store, rfl⟩ := exists_store_of_onStore hdelete
    exact .aside rfl (by rw [hpass]; rfl)
  | _ => exact .aside rfl (by rw [hpass]; rfl)

/-- **Every act but a restart** is one of these `Turns`. -/
theorem turns_of_step {a : Act W} (ha : a.restarts = false) (h : g.step a = some g') :
    g.Turns g' := by
  cases a with
  | worker act =>
    obtain ⟨path, pool, mailbox, strays, rfl, -⟩ := changes_of_workerStep h
    exact .aside rfl rfl
  | client act =>
    obtain rfl := Option.some.inj h
    obtain ⟨store, seen, heq⟩ := g.changes_of_clientStep act
    rw [heq]
    exact .aside rfl rfl
  | path | closePool =>
    obtain rfl := Option.some.inj h
    exact .aside rfl rfl
  | clearPool =>
    -- Acts of the control move the flight; the completion of a pass belongs to the pass.
    obtain ⟨-, rfl⟩ := clearPool_cases h
    exact .aside rfl rfl
  | control move =>
    cases move with
    | complete => simp [step] at h
    | _ =>
      simp only [step, Option.map_eq_some_iff] at h
      obtain ⟨control, hmove, rfl⟩ := h
      exact .moved hmove rfl rfl
  | restart => simp [Act.restarts] at ha
  | pass act =>
    cases act with
    -- A pass begins only for a ticket under way, and only where no other pass is.
    | begin ticket =>
      simp only [step, begin] at h
      split at h
      · simp at h
      · rename_i t hticket
        split at h
        · rename_i hfree
          obtain rfl := Option.some.inj h
          obtain ⟨hunderway, hnone⟩ := Bool.and_eq_true_iff.1 hfree
          refine .began rfl (Option.isNone_iff_eq_none.1 hnone) ?_ rfl
          rw [Control.underway, hticket]
          exact hunderway
        · simp at h
    | _ =>
      obtain ⟨p, hpass, hmove⟩ := Option.bind_eq_some_iff.1 h
      exact turns_of_passStep hpass hmove

/-- **A journal with one pass at a time:** its control is `Orderly`, and the pass that it has is
    that of a ticket under way. -/
structure Single (g : Journal W) : Prop where
  /-- The control is in order. -/
  control : g.control.Orderly
  /-- The pass is under way. -/
  running : ∀ i, g.pass.map Pass.ticket = some i → g.control.underway i = true

theorem single_opened (settings : Settings) (registry : Registry) (store : Store) (path : W.State)
    (strays : List Delivery) : (opened settings registry store path strays : Journal W).Single :=
  ⟨Control.orderly_fresh, by simp [opened]⟩

/-- A ticket that is `underway` stays so while no pass ends. -/
theorem underway_of_moves {f f' : Flight} {i : Nat} (h : f.Moves none f')
    (hunderway : (f.ticket? i).any Ticket.underway = true) :
    (f'.ticket? i).any Ticket.underway = true := by
  obtain ⟨t, hticket, ht⟩ := (Option.any_eq_true _ _).1 hunderway
  obtain ⟨t', hticket', -, hspawned, hresult | ⟨hends, -⟩⟩ := h.kept hticket
  · rw [hticket', Option.any_some]
    simpa [Ticket.underway, Ticket.finished, hspawned, hresult] using ht
  · simp at hends

/-- **Every act keeps `Single`.** -/
theorem Single.step (h : g.Single) {a : Act W} (hstep : g.step a = some g') : g'.Single := by
  by_cases ha : a.restarts = false
  · cases turns_of_step ha hstep with
    | aside hcontrol hpass =>
      refine ⟨by rw [hcontrol]; exact h.control, fun i hi => ?_⟩
      rw [hcontrol]
      exact h.running i (hpass ▸ hi)
    | moved hmove hends hpass =>
      refine ⟨h.control.step hmove, fun i hi => ?_⟩
      have hmoves := Control.moves_of_step hmove
      rw [hends] at hmoves
      exact underway_of_moves hmoves (h.running i (hpass ▸ hi))
    | began hcontrol hfree hunderway hpass =>
      refine ⟨by rw [hcontrol]; exact h.control, fun i hi => ?_⟩
      rw [hpass] at hi
      rw [hcontrol, ← Option.some.inj hi]
      exact hunderway
    | retired hpass hphase hmove hgone => exact ⟨h.control.step hmove, by simp [hgone]⟩
  · -- A journal that was opened again has made no ticket yet.
    cases a with
    | restart directory ending =>
      obtain ⟨store, rfl⟩ := opened_of_restart hstep
      exact single_opened _ _ _ _ _
    | _ => exact absurd rfl ha

/-! ### Later -/

/-- **What is kept until the next restart:** every ticket, with its number and its result once it
    has one; and where the flight was `Idle` after the shutdown, it is so still. -/
structure Keeps (g g' : Journal W) : Prop where
  /-- The tickets are kept. -/
  tickets : ∀ i t, g.control.flight.ticket? i = some t →
    ∃ t', g'.control.flight.ticket? i = some t' ∧ t'.number = t.number
      ∧ ∀ r, t.result = some r → t'.result = some r
  /-- The end is kept. -/
  ended : g.control.flight.closed = true → g.control.flight.Idle →
    g'.control.flight.closed = true ∧ g'.control.flight.Idle

theorem Keeps.refl (g : Journal W) : g.Keeps g :=
  ⟨fun _ t hticket => ⟨t, hticket, rfl, fun _ hr => hr⟩, fun hclosed hidle => ⟨hclosed, hidle⟩⟩

theorem Keeps.trans {g'' : Journal W} (h : g.Keeps g') (h' : g'.Keeps g'') : g.Keeps g'' := by
  refine ⟨fun i t hticket => ?_, fun hclosed hidle => ?_⟩
  · obtain ⟨t', hticket', hnumber, hresult⟩ := h.tickets i t hticket
    obtain ⟨t'', hticket'', hnumber', hresult'⟩ := h'.tickets i t' hticket'
    exact ⟨t'', hticket'', hnumber'.trans hnumber, fun r hr => hresult' r (hresult r hr)⟩
  · obtain ⟨hclosed', hidle'⟩ := h.ended hclosed hidle
    exact h'.ended hclosed' hidle'

/-- `Moves` are `Keeps`. -/
theorem keeps_of_moves {ended : Option Nat}
    (h : g.control.flight.Moves ended g'.control.flight) : g.Keeps g' := by
  refine ⟨fun i t hticket => ?_, fun hclosed hidle =>
    ⟨h.closed hclosed, h.idle_of_closed hclosed hidle⟩⟩
  obtain ⟨t', hticket', hnumber, -, hresult | ⟨-, hnone⟩⟩ := h.kept hticket
  · exact ⟨t', hticket', hnumber, fun r hr => hresult.trans hr⟩
  · exact ⟨t', hticket', hnumber, fun r hr => by simp [hnone] at hr⟩

/-- **Every act but a restart** `Keeps` the tickets, and so does a run of them. -/
theorem keeps_of_step {a : Act W} (ha : a.restarts = false) (h : g.step a = some g') :
    g.Keeps g' := by
  cases turns_of_step ha h with
  | aside hcontrol | began hcontrol =>
    have hstill : g.control.flight.Moves none g'.control.flight := by
      rw [hcontrol]
      exact .still
    exact keeps_of_moves hstill
  | moved hmove | retired _ _ hmove => exact keeps_of_moves (Control.moves_of_step hmove)

theorem keeps_of_run {acts : List (Act W)} (hacts : ∀ a ∈ acts, a.restarts = false)
    (h : g.run acts = some g') : g.Keeps g' :=
  run_induction (I := fun _ g' => g.Keeps g') (.refl g)
    (fun ha _ hstep hkept => hkept.trans (keeps_of_step (hacts _ ha) hstep)) h

/-- **The end of a pass** gives its result to all who hold its ticket. -/
theorem Single.result_of_retire (h : g.Single) (hstep : g.step (.pass .retire) = some g') :
    ∃ p r, g.pass = some p ∧ p.phase = .finished r
      ∧ (g'.control.flight.ticket? p.ticket).bind Ticket.result = some r := by
  obtain ⟨p, hpass, hmove⟩ := Option.bind_eq_some_iff.1 hstep
  simp only [passStep] at hmove
  split at hmove
  · rename_i r hphase
    refine ⟨p, r, hpass, hphase, ?_⟩
    obtain ⟨control, hcontrol, rfl⟩ := Option.map_eq_some_iff.1 hmove
    have hunderway := h.running p.ticket (by rw [hpass]; rfl)
    simp only [Control.step, hunderway, if_true, Option.some.injEq] at hcontrol
    subst hcontrol
    obtain ⟨t, hticket, ht⟩ := (Option.any_eq_true _ _).1 hunderway
    have hnone : t.result = none := by
      simpa [Ticket.underway, Ticket.finished] using (Bool.and_eq_true_iff.1 ht).2
    show ((g.control.flight.complete p.ticket r).ticket? p.ticket).bind Ticket.result = some r
    rw [Flight.complete, Flight.ticket?_update, if_pos rfl, hticket]
    simp [hnone]
  · simp at hmove

/-- **One pass at a time.** Whatever the clients of a journal, its scheduler, its pass and those who
    shut it down have done, one after another in any order:
    there is at most one pass under way, and a pass that is run is that one, so nothing holds back a
    pass that is to begin but itself;
    a pass that is not over has its thread, and a call for a pass meanwhile gives its ticket and
    changes nothing;
    the numbers of the passes count up with the tickets;
    a pass ends with one result, and every ticket keeps its number, and its result once it has one,
    whatever happens until the journal is opened again;
    and when the first shutdown is through, then and from then on the journal is shut down, no pass
    is under way or run, and a call for a pass gives a ticket that says so and has no thread. -/
theorem single_flight {settings : Settings} {registry : Registry} {store : Store} {path : W.State}
    {strays : List Delivery} {fresh : Journal W}
    (hfresh : overStore settings registry store path strays = .ok fresh) {acts : List (Act W)}
    (hrun : fresh.run acts = some g) :
    ((∀ i j, g.control.underway i = true → g.control.underway j = true → i = j)
        ∧ ∀ p, g.pass = some p → ∀ i, g.control.underway i = true ↔ p.ticket = i)
      ∧ (∀ i t, g.control.flight.ticket? i = some t → t.finished = false →
        g.control.underway i = true
          ∧ ∀ obstacle, g.control.flight.start obstacle = (i, false, g.control.flight))
      ∧ (∀ i t, g.control.flight.ticket? i = some t → t.number = i + 1)
      ∧ (∀ g', g.step (.pass .retire) = some g' → ∃ p r, g.pass = some p
        ∧ p.phase = .finished r
        ∧ (g'.control.flight.ticket? p.ticket).bind Ticket.result = some r)
      ∧ ∀ later g', g.run later = some g' → (∀ a ∈ later, a.restarts = false) →
        (∀ i t, g.control.flight.ticket? i = some t →
          ∃ t', g'.control.flight.ticket? i = some t' ∧ t'.number = t.number
            ∧ ∀ r, t.result = some r → t'.result = some r)
        ∧ (.shut true ∈ g.control.callers →
          g'.closed = true ∧ g'.pass = none ∧ (∀ i, g'.control.underway i = false)
            ∧ ∀ obstacle, ∃ i t f, g'.control.flight.start obstacle = (i, false, f)
              ∧ f.ticket? i = some t ∧ t.result = some (.error .shutDown)
              ∧ t.spawned = false) := by
  obtain ⟨-, rfl⟩ := overStore_eq_ok hfresh
  have hsingle : g.Single :=
    run_keeps (I := Single) (fun h hstep => h.step hstep) (single_opened _ _ _ _ _) hrun
  have horderly := hsingle.control.flight
  have hslot : ∀ i, g.control.underway i = true → g.control.flight.slot = some i := by
    intro i hunderway
    obtain ⟨t, hticket, ht⟩ := (Option.any_eq_true _ _).1 hunderway
    exact horderly.latest i t hticket (by simpa using (Bool.and_eq_true_iff.1 ht).2)
  have hone : ∀ i j, g.control.underway i = true → g.control.underway j = true → i = j := by
    intro i j hi hj
    exact Option.some.inj ((hslot i hi).symm.trans (hslot j hj))
  refine ⟨⟨hone, fun p hpass i => ?_⟩, fun i t hticket hopen => ⟨?_, fun obstacle =>
    horderly.start_eq hticket hopen⟩, horderly.numbered, fun g' hretire =>
    hsingle.result_of_retire hretire, fun later g' hlater hstay => ?_⟩
  · have hp := hsingle.running p.ticket (by rw [hpass]; rfl)
    constructor
    · exact fun hi => hone _ _ hp hi
    · rintro rfl
      exact hp
  · have hthread := horderly.threaded i t hticket hopen
    rw [Control.underway, hticket, Option.any_some, Ticket.underway, hthread, hopen]
    rfl
  · have hkeeps := keeps_of_run hstay hlater
    refine ⟨hkeeps.tickets, fun hshut => ?_⟩
    obtain ⟨hclosed, hidle⟩ := hkeeps.ended (hsingle.control.vouched _ hshut).1
      (hsingle.control.vouched _ hshut).2
    have hsingle' : g'.Single :=
      run_keeps (I := Single) (fun h hstep => h.step hstep) hsingle hlater
    have hnone : ∀ i, g'.control.underway i = false := by
      intro i
      by_contra hunderway
      rw [Bool.not_eq_false] at hunderway
      obtain ⟨t, hticket, ht⟩ := (Option.any_eq_true _ _).1 hunderway
      simp [Ticket.underway, hidle i t hticket] at ht
    refine ⟨hclosed, ?_, hnone, fun obstacle => ?_⟩
    · -- A pass that is run would be under way.
      cases hpass : g'.pass with
      | none => rfl
      | some p =>
        have hp := hsingle'.running p.ticket (by rw [hpass]; rfl)
        rw [hnone] at hp
        simp at hp
    · refine ⟨_, ⟨g'.control.flight.given + 1, .fresh, some (.error .shutDown), false⟩, _,
        Flight.start_of_closed hidle hclosed, ?_, rfl, rfl⟩
      rw [Flight.ticket?_issue, if_pos rfl]

/-- Two calls for a pass, and a third one while the journal is shut down: all get the first ticket,
    and the breakdown of its pass is the result they keep. -/
theorem single_flight_broken_down :
    ∃ g : Journal replicaPath,
      (opened Settings.standard .standard (.memory .empty) Replica.empty []).run
          [.control (.board none), .control (.board none), .pass (.begin 0), .control .shutDown,
            .control (.advance 0), .control (.advance 0), .control (.board none),
            .pass (.panic "boom"), .pass .retire, .control (.advance 0), .control (.advance 0),
            .control (.advance 0)]
        = some g
      ∧ g.control.flight.tickets.length = 1
      ∧ ∀ later g', g.run later = some g' → (∀ a ∈ later, a.restarts = false) →
        g'.pass = none
          ∧ (g'.control.flight.ticket? 0).bind Ticket.result
            = some (.error (.panicked "boom")) := by
  have hfresh : @overStore replicaPath Settings.standard .standard (.memory .empty) Replica.empty []
      = .ok (opened Settings.standard .standard (.memory .empty) Replica.empty []) := rfl
  have hrun : (opened Settings.standard .standard (.memory .empty) Replica.empty []
        : Journal replicaPath).run
      [.control (.board none), .control (.board none), .pass (.begin 0), .control .shutDown,
        .control (.advance 0), .control (.advance 0), .control (.board none),
        .pass (.panic "boom"), .pass .retire, .control (.advance 0), .control (.advance 0),
        .control (.advance 0)]
      = some _ := rfl
  refine ⟨_, hrun, rfl, fun later g' hlater hstay => ?_⟩
  obtain ⟨-, -, -, -, hlasts⟩ := single_flight hfresh hrun
  obtain ⟨hkept, hshut⟩ := hlasts later g' hlater hstay
  obtain ⟨t', hticket, -, hresult⟩ := hkept 0 _ rfl
  obtain ⟨-, hgone, -, -⟩ := hshut (List.mem_singleton.2 rfl)
  exact ⟨hgone, by rw [hticket]; exact hresult _ rfl⟩

end Journal

end BatchJournal
