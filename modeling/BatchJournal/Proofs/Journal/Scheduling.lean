import BatchJournal.Proofs.Journal.SingleFlight
import BatchJournal.Proofs.Pool.Places

namespace BatchJournal

/-!
# The scheduler of a journal that is shut down

The shutdown takes the scheduler out of its place once and awaits its end.  A caller that has found
the journal open and has not filled the place by then still fills it, and nobody takes that
scheduler out again.  Nobody else leaves a scheduler behind.

* `Control.Turn` — what a step does to the callers and the schedulers.
* `Control.Housed` — a scheduler that has not ended is in its place or is awaited.
* `Control.Since` — what has come of a control since the journal was marked as shut down.
* `Journal.scheduled_only_if_installing` — after the shutdown only such callers bring a scheduler.
* `Journal.scheduled_after_shutdown` — and one of them can bring one that stays.
-/

/-! ### Members of a list in which one place is set -/

/-- `set` at one place of a list leaves all but the old entry in it. -/
theorem mem_set_of_ne {α : Type} {l : List α} {i : Nat} {old x : α} (hold : l[i]? = some old)
    (hx : x ∈ l) (hne : x ≠ old) (new : α) : x ∈ l.set i new := by
  obtain ⟨j, hj⟩ := List.mem_iff_getElem?.1 hx
  have hij : i ≠ j := by
    rintro rfl
    exact hne (Option.some.inj (hj.symm.trans hold))
  exact List.mem_iff_getElem?.2 ⟨j, by rw [List.getElem?_set_ne hij, hj]⟩

/-- Two entries with `q` are one if `countP q` is at most `1`. -/
theorem eq_of_countP_le_one {α : Type} {q : α → Bool} {l : List α} (h : l.countP q ≤ 1) {x y : α}
    (hx : x ∈ l) (hqx : q x = true) (hy : y ∈ l) (hqy : q y = true) : x = y := by
  rw [List.countP_eq_length_filter] at h
  have hx' : x ∈ l.filter q := List.mem_filter.2 ⟨hx, hqx⟩
  have hy' : y ∈ l.filter q := List.mem_filter.2 ⟨hy, hqy⟩
  match hl : l.filter q with
  | [] => simp [hl] at hx'
  | [z] =>
    rw [hl] at hx' hy'
    rw [List.mem_singleton.1 hx', List.mem_singleton.1 hy']
  | _ :: _ :: _ => simp [hl] at h

/-! ### Callers -/

namespace Controller

/-- It was the first to mark the journal as `closed`. -/
def closes : Controller → Bool
  | .boarding | .awaiting _ | .removing | .joining _ | .releasing | .shut true => true
  | _ => false

/-- It has emptied the place of the scheduler, or found it empty. -/
def hasRemoved : Controller → Bool
  | .joining _ | .releasing | .shut true => true
  | _ => false

/-- It has found the journal open. -/
def foundOpen : Controller → Bool
  | .installing | .installed true | .unscheduled _ => true
  | _ => false

/-- It has found the journal open and has not filled the place. -/
def isInstalling : Controller → Bool
  | .installing => true
  | _ => false

/-- Who `hasRemoved` marked the journal before. -/
theorem closes_of_hasRemoved {caller : Controller} (h : caller.hasRemoved = true) :
    caller.closes = true := by
  cases caller with
  | joining | releasing => rfl
  | shut first => cases first <;> exact h
  | _ => exact Bool.noConfusion h

/-- **How a caller goes on** without a change of the schedulers and their place: from one
    `Controller` to the next. -/
inductive Onward (c : Control) : Controller → Controller → Prop where
  /-- It looks whether the journal is shut down. -/
  | looks : Onward c .checking (if c.closed then .installed false else .installing)
  /-- It finds a scheduler in the place. -/
  | finds {k : Nat} (hplace : c.place = some k) : Onward c .installing (.installed true)
  /-- No thread can be started for its scheduler. -/
  | thwarted (reason : String) : Onward c .installing (.unscheduled reason)
  /-- It finds the journal marked. -/
  | comesLate (hclosed : c.closed = true) : Onward c .marking (.shut false)
  /-- It takes the latest ticket, if there is one. -/
  | boards {new : Controller} (hnew : new = .removing ∨ ∃ t, new = .awaiting t) :
      Onward c .boarding new
  /-- The pass that it waited for is over. -/
  | outwaits (t : Nat) : Onward c (.awaiting t) .removing
  /-- It finds the place empty. -/
  | passesBy (hplace : c.place = none) : Onward c .removing .releasing
  /-- The scheduler that it waited for has ended. -/
  | joins {k : Nat} {s : Scheduler} (hscheduler : c.schedulers[k]? = some s)
      (hended : s.beat = .ended) : Onward c (.joining k) .releasing
  /-- It is done. -/
  | releases : Onward c .releasing (.shut true)

variable {c : Control} {old new : Controller}

/-- Nobody becomes the first to mark the journal on the way. -/
theorem Onward.closes_eq (h : Onward c old new) : new.closes = old.closes := by
  cases h with
  | looks => split <;> rfl
  | boards hnew => rcases hnew with rfl | ⟨t, rfl⟩ <;> rfl
  | _ => rfl

/-- **Once the journal is marked** nobody has `foundOpen` who had not before, and nobody comes to
    `isInstalling`; and only an empty place is passed by. -/
theorem Onward.marks (h : Onward c old new) (hclosed : c.closed = true) :
    (new.foundOpen = true → old.foundOpen = true)
      ∧ new.isInstalling = false
      ∧ (new.hasRemoved = true → old.hasRemoved = true ∨ c.place = none) := by
  cases h with
  | looks => simp [hclosed, foundOpen, isInstalling, hasRemoved]
  | boards hnew =>
    rcases hnew with rfl | ⟨t, rfl⟩ <;> simp [foundOpen, isInstalling, hasRemoved]
  | passesBy hplace => simp [hplace, foundOpen, isInstalling]
  | _ => simp [foundOpen, isInstalling, hasRemoved]

end Controller

namespace Control

variable {c c₁ c₂ c' : Control} {i : Nat}

/-! ### Steps -/

/-- **What a step does to the callers and the schedulers:** `c.Turn c'`. -/
inductive Turn (c : Control) : Control → Prop where
  /-- Nothing; only the tickets change. -/
  | aside {f : Flight} (hclosed : f.closed = c.closed) : Turn c { c with flight := f }
  /-- A caller comes. -/
  | comes {new : Controller} (hnew : new = .checking ∨ new = .marking) :
      Turn c { c with callers := c.callers ++ [new] }
  /-- A caller goes on, as `Onward` says. -/
  | onward {i : Nat} {old new : Controller} {f : Flight} (hclosed : f.closed = c.closed)
      (hold : c.callers[i]? = some old) (hnext : old.Onward c new) :
      Turn c { c.move i new with flight := f }
  /-- A caller is the first to mark the journal as shut down. -/
  | marks {i : Nat} (hold : c.callers[i]? = some .marking) (hopen : c.closed = false) :
      Turn c { c.move i .boarding with flight := c.flight.close }
  /-- A caller that `isInstalling` fills the place. -/
  | installs {i : Nat} (hold : c.callers[i]? = some .installing) (hplace : c.place = none) :
      Turn c { c.move i (.installed true) with
        schedulers := c.schedulers ++ [⟨false, .sleeping⟩], place := some c.schedulers.length }
  /-- A caller empties the place. -/
  | removes {i k : Nat} (hold : c.callers[i]? = some .removing) (hplace : c.place = some k) :
      Turn c { c.move i (.joining k) with
        place := none
        schedulers := c.schedulers.modify k fun s => { s with stopping := true } }
  /-- A scheduler goes on. -/
  | beats {k : Nat} {old new : Scheduler} {f : Flight} (hclosed : f.closed = c.closed)
      (hold : c.schedulers[k]? = some old) (hrunning : old.beat ≠ .ended)
      (hkept : new.stopping = old.stopping) : Turn c { c.reset k new with flight := f }

/-- `Flight.start` does not mark the journal. -/
theorem closed_start (f : Flight) (obstacle : Option String) :
    (f.start obstacle).2.2.closed = f.closed := by
  have hstart := f.start_cases obstacle
  generalize f.start obstacle = result at hstart
  cases hstart <;> rfl

theorem turn_of_advance (h : c.advance i = some c') : c.Turn c' := by
  cases advanceMove_of_advance h with
  | looks hold => exact .onward (f := c.flight) rfl hold .looks
  | finds hold hplace => exact .onward (f := c.flight) rfl hold (.finds hplace)
  | installs hold hplace => exact .installs hold hplace
  | comesLate hold hclosed => exact .onward (f := c.flight) rfl hold (.comesLate hclosed)
  | marks hold hopen => exact .marks hold hopen
  | findsNone hold => exact .onward (f := c.flight) rfl hold (.boards (.inl rfl))
  | boards hold => exact .onward rfl hold (.boards (.inr ⟨_, rfl⟩))
  | outwaits hold => exact .onward (f := c.flight) rfl hold (.outwaits _)
  | passesBy hold hplace => exact .onward (f := c.flight) rfl hold (.passesBy hplace)
  | removes hold hplace => exact .removes hold hplace
  | joins hold hscheduler hended => exact .onward (f := c.flight) rfl hold (.joins hscheduler hended)
  | releases hold => exact .onward (f := c.flight) rfl hold .releases

theorem turn_of_beat {k : Nat} {obstacle : Option String} (h : c.beat k obstacle = some c') :
    c.Turn c' := by
  obtain ⟨old, new, f, hold, hrunning, hkept, hflight, rfl⟩ := beat_cases h
  refine .beats ?_ hold hrunning hkept
  rcases hflight with rfl | rfl
  · rfl
  · exact closed_start _ _

/-- **Every step of anybody** is a `Turn`. -/
theorem turn_of_step {move : Move} (h : c.step move = some c') : c.Turn c' := by
  -- Tickets have nothing to do with the place of the scheduler.
  cases move with
  | board obstacle =>
    obtain rfl := Option.some.inj h
    exact .aside (closed_start _ _)
  | cancel t =>
    obtain rfl := Option.some.inj h
    exact .aside rfl
  | complete t r =>
    simp only [step] at h
    split at h
    · obtain rfl := Option.some.inj h
      exact .aside rfl
    · simp at h
  | install =>
    obtain rfl := Option.some.inj h
    exact .comes (.inl rfl)
  | shutDown =>
    obtain rfl := Option.some.inj h
    exact .comes (.inr rfl)
  | advance i => exact turn_of_advance h
  | thwart i reason =>
    obtain ⟨hold, -, -, rfl⟩ := thwart_cases h
    exact .onward (f := c.flight) rfl hold (.thwarted reason)
  | beat k obstacle => exact turn_of_beat h

/-- `closed` stays. -/
theorem Turn.closed (hturn : c.Turn c') (hclosed : c.closed = true) : c'.closed = true := by
  cases hturn with
  | aside hsame | onward hsame | beats hsame => exact hsame.trans hclosed
  | marks => rfl
  | comes | installs | removes => exact hclosed

/-! ### Where schedulers are -/

/-- **A scheduler that has not `ended`** is in its place, or is awaited by the one caller that shuts
    the journal down. -/
structure Housed (c : Control) : Prop where
  /-- The scheduler in the place is there. -/
  placed : ∀ k, c.place = some k → k < c.schedulers.length
  /-- A scheduler that has not ended is in the place or awaited. -/
  running : ∀ k s, c.schedulers[k]? = some s → s.beat ≠ .ended →
    c.place = some k ∨ .joining k ∈ c.callers
  /-- One caller `closes` the journal, if it is `closed`. -/
  first : c.callers.countP Controller.closes = c.closed.toNat

theorem housed_fresh : fresh.Housed :=
  ⟨by simp [fresh], by simp [fresh], rfl⟩

/-- **Every `Turn`** keeps `Housed`. -/
theorem Housed.turn (h : c.Housed) (hturn : c.Turn c') : c'.Housed := by
  cases hturn with
  | @aside f hclosed =>
    exact ⟨h.placed, h.running, h.first.trans (congrArg Bool.toNat hclosed.symm)⟩
  | @comes new hnew =>
    have hcloses : new.closes = false := by rcases hnew with rfl | rfl <;> rfl
    refine ⟨h.placed, fun k s hs hrunning => ?_, ?_⟩
    · exact (h.running k s hs hrunning).imp_right (List.mem_append_left _)
    · show (c.callers ++ [new]).countP Controller.closes = c.closed.toNat
      simp [List.countP_append, hcloses, h.first]
  | @onward i old new f hclosed hold hnext =>
    refine ⟨h.placed, fun k s hs hrunning => ?_, ?_⟩
    · refine (h.running k s hs hrunning).imp_right fun hjoining => ?_
      refine mem_set_of_ne hold hjoining ?_ new
      -- Who awaits the scheduler goes on only when it has ended.
      rintro rfl
      cases hnext with
      | joins hscheduler hended =>
        rw [Option.some.inj (hs.symm.trans hscheduler)] at hrunning
        exact hrunning hended
    · have hset := countP_set_add (q := Controller.closes) hold new
      rw [hnext.closes_eq] at hset
      exact (Nat.add_right_cancel hset).trans
        (h.first.trans (congrArg Bool.toNat hclosed.symm))
  | @marks i hold hopen =>
    refine ⟨h.placed, fun k s hs hrunning => ?_, ?_⟩
    · exact (h.running k s hs hrunning).imp_right fun hjoining =>
        mem_set_of_ne hold hjoining (by simp) _
    · have hset := countP_set_add (q := Controller.closes) hold .boarding
      have hfirst := h.first
      rw [hopen] at hfirst
      show (c.callers.set i .boarding).countP Controller.closes = 1
      simpa [Controller.closes, hfirst] using hset
  | @installs i hold hplace =>
    refine ⟨fun k hk => ?_, fun k s hs hrunning => ?_, ?_⟩
    · obtain rfl := Option.some.inj hk
      simp
    · rcases Nat.lt_or_ge k c.schedulers.length with hlt | hge
      · -- The place was empty, so an older scheduler that has not ended is awaited.
        have hs' : c.schedulers[k]? = some s := by
          rw [← hs]
          exact (List.getElem?_append_left hlt).symm
        rcases h.running k s hs' hrunning with hk | hjoining
        · simp [hplace] at hk
        · exact .inr (mem_set_of_ne hold hjoining (by simp) _)
      · have hlt : k < (c.schedulers ++ [(⟨false, .sleeping⟩ : Scheduler)]).length :=
          (List.getElem?_eq_some_iff.1 hs).1
        rw [List.length_append, List.length_singleton] at hlt
        exact .inl (congrArg some (by omega))
    · have hset := countP_set_add (q := Controller.closes) hold (.installed true)
      exact (Nat.add_right_cancel hset).trans h.first
  | @removes i k hold hplace =>
    refine ⟨nofun, fun j s hs hrunning => ?_, ?_⟩
    · -- The scheduler that was in the place is awaited by the caller that took it out.
      have hmodify : (c.schedulers.modify k fun s => { s with stopping := true })[j]? = some s := hs
      rw [List.getElem?_modify] at hmodify
      obtain ⟨s₀, hs₀, rfl⟩ := Option.map_eq_some_iff.1 hmodify
      have hrunning₀ : s₀.beat ≠ .ended := by
        intro hended
        refine hrunning ?_
        split <;> exact hended
      rcases h.running j s₀ hs₀ hrunning₀ with hj | hjoining
      · obtain rfl := Option.some.inj (hplace.symm.trans hj)
        exact .inr (List.mem_set (List.getElem?_eq_some_iff.1 hold).1 _)
      · exact .inr (mem_set_of_ne hold hjoining (by simp) _)
    · have hset := countP_set_add (q := Controller.closes) hold (.joining k)
      exact (Nat.add_right_cancel hset).trans h.first
  | @beats k old new f hclosed hold hrunning hkept =>
    -- A scheduler that goes on had not ended before, so it is where it was.
    refine ⟨fun j hj => ?_, fun j s hs hbeat => ?_, ?_⟩
    · rw [show ({ c.reset k new with flight := f } : Control).schedulers
        = c.schedulers.set k new from rfl, List.length_set]
      exact h.placed j hj
    · by_cases hkj : k = j
      · subst hkj
        exact h.running k old hold hrunning
      · have hs' : c.schedulers[j]? = some s := by
          rw [← hs]
          exact (List.getElem?_set_ne hkj).symm
        exact h.running j s hs' hbeat
    · exact h.first.trans (congrArg Bool.toNat hclosed.symm)

/-- Two callers that `closes` tells of are the same. -/
theorem Housed.unique (h : c.Housed) {x y : Controller} (hx : x ∈ c.callers)
    (hxcloses : x.closes = true) (hy : y ∈ c.callers) (hycloses : y.closes = true) : x = y := by
  refine eq_of_countP_le_one ?_ hx hxcloses hy hycloses
  rw [h.first]
  exact Bool.toNat_le _

/-- **When the first shutdown is through,** at `shut true`, a scheduler that has not `ended` is in
    the place. -/
theorem Housed.place_of_shut (h : c.Housed) (hshut : .shut true ∈ c.callers) {k : Nat}
    {s : Scheduler} (hs : c.schedulers[k]? = some s) (hrunning : s.beat ≠ .ended) :
    c.place = some k :=
  (h.running k s hs hrunning).resolve_right fun hjoining =>
    Controller.noConfusion (h.unique hjoining rfl hshut rfl)

/-- A caller at `shut true` stays there. -/
theorem shut_of_turn (hturn : c.Turn c') (hshut : .shut true ∈ c.callers) :
    .shut true ∈ c'.callers := by
  cases hturn with
  | aside | beats => exact hshut
  | comes => exact List.mem_append_left _ hshut
  | onward _ hold hnext =>
    refine mem_set_of_ne hold hshut ?_ _
    rintro rfl
    cases hnext
  | marks hold | installs hold | removes hold => exact mem_set_of_ne hold hshut (by simp) _

/-- **A scheduler that is in the place when the first shutdown is through** stays there, and nobody
    tells it to end. -/
theorem Housed.scheduled_turn (h : c.Housed) (hshut : .shut true ∈ c.callers)
    (hscheduled : c.scheduled = true) (hturn : c.Turn c') : c'.scheduled = true := by
  cases hturn with
  | aside | comes | onward | marks => exact hscheduled
  | installs _ hplace => simp [scheduled, hplace] at hscheduled
  | removes hold =>
    -- Only the first shutdown empties the place, and it is through.
    exact Controller.noConfusion (h.unique (List.mem_of_getElem? hold) rfl hshut rfl)
  | @beats k old new f hclosed hold hrunning hkept =>
    obtain ⟨s, hs, hstays⟩ := (Option.any_eq_true _ _).1 hscheduled
    obtain ⟨j, hj, hs⟩ := Option.bind_eq_some_iff.1 hs
    refine (Option.any_eq_true _ _).2 ?_
    by_cases hkj : k = j
    · subst hkj
      obtain rfl := Option.some.inj (hs.symm.trans hold)
      refine ⟨new, Option.bind_eq_some_iff.2 ⟨k, hj, ?_⟩, by rw [hkept]; exact hstays⟩
      exact List.getElem?_set_self (List.getElem?_eq_some_iff.1 hold).1
    · refine ⟨s, Option.bind_eq_some_iff.2 ⟨j, hj, ?_⟩, hstays⟩
      exact (List.getElem?_set_ne hkj).trans hs

/-! ### Since the journal was marked -/

/-- The number of callers that have found the journal open and have not filled the place. -/
def installing (c : Control) : Nat := c.callers.countP Controller.isInstalling

/-- **What has come of a control** `c` since the journal was marked as shut down. -/
structure Since (c c' : Control) : Prop where
  /-- The journal stays marked. -/
  closed : c'.closed = true
  /-- The schedulers stay. -/
  grown : c.schedulers.length ≤ c'.schedulers.length
  /-- A new scheduler uses up a caller that had `foundOpen`. -/
  late : c'.schedulers.length + c'.installing ≤ c.schedulers.length + c.installing
  /-- Nobody else finds the journal open. -/
  admitted : ∀ (i : Nat) (caller : Controller), c'.callers[i]? = some caller → caller.foundOpen = true →
    ∃ before : Controller, c.callers[i]? = some before ∧ before.foundOpen = true
  /-- Once the place was emptied, a scheduler in it is a new one. -/
  removed : ∀ caller ∈ c'.callers, caller.hasRemoved = true → ∀ k, c'.place = some k →
    c.schedulers.length ≤ k

/-- With one caller in a new place that has `foundOpen` only if it had before, nobody else has. -/
theorem Since.admitted_set (h : c.Since c₁) {old new : Controller}
    (hold : c₁.callers[i]? = some old) (hnew : new.foundOpen = true → old.foundOpen = true)
    (j : Nat) (caller : Controller) (hcaller : (c₁.callers.set i new)[j]? = some caller)
    (hopen : caller.foundOpen = true) :
    ∃ before : Controller, c.callers[j]? = some before ∧ before.foundOpen = true := by
  by_cases hij : i = j
  · subst hij
    rw [List.getElem?_set_self (List.getElem?_eq_some_iff.1 hold).1] at hcaller
    obtain rfl := Option.some.inj hcaller
    exact h.admitted i old hold (hnew hopen)
  · rw [List.getElem?_set_ne hij] at hcaller
    exact h.admitted j caller hcaller hopen

/-- **Every `Turn`** keeps `Since`. -/
theorem Since.turn (h : c.Since c₁) (hturn : c₁.Turn c₂) : c.Since c₂ := by
  have hclosed₁ := h.closed
  cases hturn with
  | aside hclosed =>
    exact ⟨hclosed.trans hclosed₁, h.grown, h.late, h.admitted, h.removed⟩
  | @comes new hnew =>
    obtain ⟨hopen, hinstalling, hremoved⟩ : new.foundOpen = false ∧ new.isInstalling = false
        ∧ new.hasRemoved = false := by
      rcases hnew with rfl | rfl <;> exact ⟨rfl, rfl, rfl⟩
    refine ⟨hclosed₁, h.grown, ?_, fun j caller hcaller hfound => ?_, fun caller hcaller hmark => ?_⟩
    · have hcount : (c₁.callers ++ [new]).countP Controller.isInstalling = c₁.installing := by
        simp [installing, hinstalling]
      show c₁.schedulers.length + (c₁.callers ++ [new]).countP Controller.isInstalling ≤ _
      rw [hcount]
      exact h.late
    · rcases Nat.lt_or_ge j c₁.callers.length with hlt | hge
      · rw [show ({ c₁ with callers := c₁.callers ++ [new] } : Control).callers[j]?
          = c₁.callers[j]? from List.getElem?_append_left hlt] at hcaller
        exact h.admitted j caller hcaller hfound
      · have hlast : caller ∈ [new] := by
          have hcaller' : (c₁.callers ++ [new])[j]? = some caller := hcaller
          rw [List.getElem?_append_right hge] at hcaller'
          exact List.mem_of_getElem? hcaller'
        rw [List.mem_singleton.1 hlast, hopen] at hfound
        exact Bool.noConfusion hfound
    · rcases List.mem_append.1 hcaller with hbefore | hlast
      · exact h.removed caller hbefore hmark
      · rw [List.mem_singleton.1 hlast, hremoved] at hmark
        exact Bool.noConfusion hmark
  | @onward i old new f hclosed hold hnext =>
    obtain ⟨hopen, hinstalling, hremoved⟩ := hnext.marks hclosed₁
    refine ⟨hclosed.trans hclosed₁, h.grown, ?_, h.admitted_set hold hopen,
      fun caller hcaller hmark k hplace => ?_⟩
    · have hset := countP_set_add (q := Controller.isInstalling) hold new
      rw [hinstalling] at hset
      have hle : (c₁.callers.set i new).countP Controller.isInstalling ≤ c₁.installing :=
        Nat.le.intro hset
      exact Nat.le_trans (Nat.add_le_add_left hle _) h.late
    · rcases List.mem_or_eq_of_mem_set hcaller with hbefore | rfl
      · exact h.removed caller hbefore hmark k hplace
      · rcases hremoved hmark with hold' | hnone
        · exact h.removed old (List.mem_of_getElem? hold) hold' k hplace
        · exact absurd (hnone.symm.trans hplace) (by simp)
  | marks _ hopen => exact Bool.noConfusion (hopen.symm.trans hclosed₁)
  | @installs i hold hplace =>
    -- There is one scheduler more, and one caller less that can still bring one.
    have hset := countP_set_add (q := Controller.isInstalling) hold (.installed true)
    have hlate := h.late
    have hgrown := h.grown
    simp only [installing] at hlate
    simp only [Controller.isInstalling, Bool.toNat_true, Bool.toNat_false] at hset
    refine ⟨hclosed₁, ?_, ?_, h.admitted_set hold fun _ => rfl, fun caller _ _ k hk => ?_⟩
    · show c.schedulers.length ≤ (c₁.schedulers ++ [_]).length
      rw [List.length_append, List.length_singleton]
      omega
    · show (c₁.schedulers ++ [_]).length
        + (c₁.callers.set i (.installed true)).countP Controller.isInstalling ≤ _
      rw [List.length_append, List.length_singleton, installing]
      omega
    · rw [← Option.some.inj hk]
      exact hgrown
  | @removes i k hold hplace =>
    have hset := countP_set_add (q := Controller.isInstalling) hold (.joining k)
    refine ⟨hclosed₁, ?_, ?_, h.admitted_set hold (by simp [Controller.foundOpen]),
      fun _ _ _ => nofun⟩
    · show c.schedulers.length ≤ (c₁.schedulers.modify k _).length
      rw [List.length_modify]
      exact h.grown
    · show (c₁.schedulers.modify k _).length
        + (c₁.callers.set i (.joining k)).countP Controller.isInstalling ≤ _
      rw [List.length_modify, Nat.add_right_cancel hset]
      exact h.late
  | @beats k old new f hclosed hold =>
    have hlength : (c₁.schedulers.set k new).length = c₁.schedulers.length := List.length_set ..
    exact ⟨hclosed.trans hclosed₁, hlength.symm ▸ h.grown, hlength.symm ▸ h.late, h.admitted,
      h.removed⟩

/-- **When the journal is marked** nobody has emptied the place, so `Since` begins. -/
theorem Housed.since_of_mark (h : c.Housed) (hopen : c.closed = false) (hturn : c.Turn c')
    (hclosed : c'.closed = true) : c.Since c' := by
  cases hturn with
  | @marks i hold =>
    have hset := countP_set_add (q := Controller.isInstalling) hold .boarding
    refine ⟨rfl, Nat.le_refl _, Nat.le_of_eq ?_, fun j caller hcaller hfound => ?_,
      fun caller hcaller hmark => ?_⟩
    · exact congrArg (c.schedulers.length + ·) (Nat.add_right_cancel hset)
    · by_cases hij : i = j
      · subst hij
        rw [show ({ c.move i .boarding with flight := c.flight.close } : Control).callers[i]?
          = some .boarding from List.getElem?_set_self (List.getElem?_eq_some_iff.1 hold).1]
          at hcaller
        rw [← Option.some.inj hcaller] at hfound
        exact Bool.noConfusion hfound
      · exact ⟨caller, (List.getElem?_set_ne hij).symm.trans hcaller, hfound⟩
    · -- Who has emptied the place marked the journal, and nobody had.
      have hnobody := h.first
      rw [hopen] at hnobody
      rcases List.mem_or_eq_of_mem_set hcaller with hbefore | rfl
      · exact absurd (Controller.closes_of_hasRemoved hmark)
          (List.countP_eq_zero.1 hnobody caller hbefore)
      · exact Bool.noConfusion hmark
  | aside hsame | onward hsame | beats hsame =>
    exact Bool.noConfusion (hopen.symm.trans (hsame.symm.trans hclosed))
  | comes | installs | removes => exact Bool.noConfusion (hopen.symm.trans hclosed)

/-- **What is left of the schedulers** of a journal that is shut down, seen in the state `c` in
    which it is marked and in `c'` after the shutdown. -/
structure LeavesScheduled (c c' : Control) : Prop where
  /-- No more schedulers come than `c.installing` tells. -/
  late : c'.schedulers.length + c'.installing ≤ c.schedulers.length + c.installing
  /-- Nobody else finds the journal open. -/
  admitted : ∀ (i : Nat) (caller : Controller), c'.callers[i]? = some caller → caller.foundOpen = true →
    ∃ before : Controller, c.callers[i]? = some before ∧ before.foundOpen = true
  /-- Only the scheduler in the place runs, if it has come since. -/
  running : ∀ k s, c'.schedulers[k]? = some s → s.beat ≠ .ended →
    c'.place = some k ∧ c.schedulers.length ≤ k
  /-- If `c.installing = 0`, no scheduler runs and none has come. -/
  settled : c.installing = 0 → c'.place = none ∧ c'.scheduled = false
    ∧ (∀ s ∈ c'.schedulers, s.beat = .ended) ∧ c'.schedulers.length = c.schedulers.length

theorem Since.leaves (h : c.Since c') (hhoused : c'.Housed) (hshut : .shut true ∈ c'.callers) :
    c.LeavesScheduled c' := by
  have hnew : ∀ k, c'.place = some k → c.schedulers.length ≤ k := h.removed _ hshut rfl
  have hrunning : ∀ k s, c'.schedulers[k]? = some s → s.beat ≠ .ended → c'.place = some k :=
    fun k s hs hbeat => hhoused.place_of_shut hshut hs hbeat
  refine ⟨h.late, h.admitted,
    fun k s hs hbeat => ⟨hrunning k s hs hbeat, hnew k (hrunning k s hs hbeat)⟩, fun hnobody => ?_⟩
  have hlate := h.late
  have hgrown := h.grown
  -- A scheduler in the place would be a new one, but then a caller would have stood there.
  have hempty : c'.place = none := by
    cases hplace : c'.place with
    | none => rfl
    | some k =>
      have hlt := hhoused.placed k hplace
      have hge := hnew k hplace
      omega
  refine ⟨hempty, by simp [scheduled, hempty], fun s hs => ?_, by omega⟩
  by_contra hbeat
  obtain ⟨k, hk⟩ := List.mem_iff_getElem?.1 hs
  simp [hempty] at hrunning
  exact hbeat (hrunning k s hk)

end Control

/-! ### The journal -/

namespace Journal

variable {W : WritePath} {g g₁ g' g'' : Journal W}

/-- **Every act but a restart** leaves the control as it is or makes a `Turn` of it. -/
theorem control_of_step {a : Act W} (ha : a.restarts = false) (h : g.step a = some g') :
    g'.control = g.control ∨ g.control.Turn g'.control := by
  cases turns_of_step ha h with
  | aside hcontrol | began hcontrol => exact .inl hcontrol
  | moved hmove | retired _ _ hmove => exact .inr (Control.turn_of_step hmove)

/-- What every `Turn` keeps is kept by every run without a restart. -/
theorem control_of_run {I : Control → Prop} (hkeep : ∀ {c c'}, I c → c.Turn c' → I c')
    {acts : List (Act W)} (hacts : ∀ a ∈ acts, a.restarts = false) (h : I g.control)
    (hrun : g.run acts = some g') : I g'.control := by
  refine run_induction (I := fun _ g' => I g'.control) h (fun ha _ hstep hbefore => ?_) hrun
  rcases control_of_step (hacts _ ha) hstep with heq | hturn
  · rw [heq]
    exact hbefore
  · exact hkeep hbefore hturn

/-- `Housed` holds along every run. -/
theorem housed_of_run {acts : List (Act W)} (h : g.control.Housed) (hrun : g.run acts = some g') :
    g'.control.Housed := by
  refine run_keeps (I := fun g => g.control.Housed) (fun {g g' a} hbefore hstep => ?_) h hrun
  by_cases ha : a.restarts = false
  · rcases control_of_step ha hstep with heq | hturn
    · rw [heq]
      exact hbefore
    · exact hbefore.turn hturn
  · cases a with
    | restart directory ending =>
      obtain ⟨store, rfl⟩ := opened_of_restart hstep
      exact Control.housed_fresh
    | _ => exact absurd rfl ha

/-- **A scheduler runs after the shutdown only if a caller stood before its place.**  Let a run of a
    journal come to the step that marks it as shut down, let the first shutdown be through some time
    after that, and look at any state from then on.  No more schedulers have come since the mark
    than callers had found the journal open and not filled the place; every other call to install
    one is told that the journal is shut down.  All schedulers have ended but the one in the place,
    which has come since the mark.  So if no caller stood there when the journal was marked, the
    shutdown is final: no scheduler runs, the journal is not scheduled, and none has come. -/
theorem scheduled_only_if_installing {settings : Settings} {registry : Registry} {store : Store}
    {path : W.State} {strays : List Delivery} {fresh : Journal W}
    (hfresh : overStore settings registry store path strays = .ok fresh) {acts : List (Act W)}
    (hrun : fresh.run acts = some g) (hopen : g.closed = false) (a : Act W)
    (hmark : g.step a = some g₁) (hclosed : g₁.closed = true) (during after : List (Act W))
    (hduring : g₁.run during = some g') (hshut : .shut true ∈ g'.control.callers)
    (hafter : g'.run after = some g'') (hstay : ∀ a ∈ during ++ after, a.restarts = false) :
    .shut true ∈ g''.control.callers ∧ g.control.LeavesScheduled g''.control := by
  obtain ⟨-, rfl⟩ := overStore_eq_ok hfresh
  have hhoused : g.control.Housed := housed_of_run Control.housed_fresh hrun
  -- The mark is a step of the control: a restart would leave the journal open.
  have hturn : g.control.Turn g₁.control := by
    have ha : a.restarts = false := by
      cases a with
      | restart directory ending =>
        obtain ⟨store, rfl⟩ := opened_of_restart hmark
        exact Bool.noConfusion hclosed
      | _ => rfl
    refine (control_of_step ha hmark).resolve_left fun heq => ?_
    have hsame : g₁.closed = g.closed := congrArg Control.closed heq
    exact Bool.noConfusion (hopen.symm.trans (hsame.symm.trans hclosed))
  have hwhole : g₁.run (during ++ after) = some g'' := by
    rw [run_append, hduring]
    exact hafter
  -- From the mark on `Since` says what was installed before; at the end of the shutdown it gives
  -- the claim.
  have hsince : g.control.Since g''.control :=
    control_of_run (I := g.control.Since) (fun h hturn => h.turn hturn) hstay
      (hhoused.since_of_mark hopen hturn hclosed) hwhole
  have hhoused'' : g''.control.Housed := housed_of_run (hhoused.turn hturn) hwhole
  have hshut'' : .shut true ∈ g''.control.callers :=
    control_of_run (I := (.shut true ∈ ·.callers)) (fun hbefore hnext =>
      Control.shut_of_turn hnext hbefore)
      (fun a ha => hstay a (List.mem_append_right _ ha)) hshut hafter
  exact ⟨hshut'', hsince.leaves hhoused'' hshut''⟩

/-- A scheduler is installed, asks for a pass and waits for it; the shutdown stops the pass and
    takes the scheduler out, and nobody stands before its place meanwhile.  Whatever happens then,
    no scheduler runs. -/
theorem scheduled_only_if_installing_joined :
    ∃ g : Journal replicaPath,
      (opened Settings.standard .standard (.memory .empty) Replica.empty []).run
          [.control .install, .control (.advance 0), .control (.advance 0), .control (.beat 0 none),
            .control (.beat 0 none), .pass (.begin 0), .control .shutDown, .control (.advance 1),
            .control (.advance 1), .pass .fetch, .pass .retire, .control (.advance 1),
            .control (.advance 1), .control (.beat 0 none), .control (.beat 0 none),
            .control (.advance 1), .control (.advance 1)]
        = some g
      ∧ g.control.callers = [.installed true, .shut true]
      ∧ ∀ after g', g.run after = some g' → (∀ a ∈ after, a.restarts = false) →
        g'.control.place = none ∧ g'.control.scheduled = false
          ∧ ∀ s ∈ g'.control.schedulers, s.beat = .ended := by
  have hfresh : @overStore replicaPath Settings.standard .standard (.memory .empty) Replica.empty []
      = .ok (opened Settings.standard .standard (.memory .empty) Replica.empty []) := rfl
  have hrun : (opened Settings.standard .standard (.memory .empty) Replica.empty []
        : Journal replicaPath).run
      [.control .install, .control (.advance 0), .control (.advance 0), .control (.beat 0 none),
        .control (.beat 0 none), .pass (.begin 0), .control .shutDown]
      = some _ := rfl
  refine ⟨_, rfl, rfl, fun after g' hafter hstay => ?_⟩
  -- The scheduler was installed before the shutdown began, and so is joined by it.
  obtain ⟨-, hleaves⟩ := scheduled_only_if_installing hfresh hrun rfl (.control (.advance 1))
    rfl rfl [.control (.advance 1), .pass .fetch, .pass .retire, .control (.advance 1),
      .control (.advance 1), .control (.beat 0 none), .control (.beat 0 none),
      .control (.advance 1), .control (.advance 1)] after rfl
    (List.mem_cons_of_mem _ (List.mem_singleton_self _)) hafter
    (by simpa [Act.restarts] using hstay)
  obtain ⟨hplace, hscheduled, hended, -⟩ := hleaves.settled rfl
  exact ⟨hplace, hscheduled, hended⟩

/-- **The shutdown is not final.**  A caller finds the journal open and is about to install a
    scheduler; the whole shutdown takes place; then the caller fills the place, is told that all is
    well, and until the journal is opened again it stays scheduled whatever anybody does, with a
    scheduler that goes on asking for passes. -/
theorem scheduled_after_shutdown :
    ∃ g g' : Journal replicaPath,
      (opened Settings.standard .standard (.memory .empty) Replica.empty []).run
          [.control .install, .control (.advance 0), .control .shutDown, .control (.advance 1),
            .control (.advance 1), .control (.advance 1), .control (.advance 1)]
        = some g
      ∧ g.control.callers = [.installing, .shut true]
      ∧ g.run [.control (.advance 0), .control (.beat 0 none), .control (.beat 0 none)] = some g'
      ∧ g'.control.callers = [.installed true, .shut true]
      ∧ g'.control.schedulers = [⟨false, .waiting 0⟩]
      ∧ ∀ after g'', g'.run after = some g'' → (∀ a ∈ after, a.restarts = false) →
        g''.closed = true ∧ g''.control.scheduled = true := by
  -- The caller that installs saw the journal open before the whole shutdown ran.
  have hhoused : (opened Settings.standard .standard (.memory .empty) Replica.empty []
      : Journal replicaPath).control.Housed := Control.housed_fresh
  have hwhole : (opened Settings.standard .standard (.memory .empty) Replica.empty []
        : Journal replicaPath).run
      [.control .install, .control (.advance 0), .control .shutDown, .control (.advance 1),
        .control (.advance 1), .control (.advance 1), .control (.advance 1), .control (.advance 0),
        .control (.beat 0 none), .control (.beat 0 none)] = some _ := rfl
  refine ⟨_, _, rfl, rfl, rfl, rfl, rfl, fun after g'' hafter hstay => ?_⟩
  obtain ⟨-, -, hclosed, hscheduled⟩ := control_of_run
    -- The invariant of what follows: the shutdown is over, and a scheduler that nobody stops is in
    -- its place.
    (I := fun c => c.Housed ∧ .shut true ∈ c.callers ∧ c.closed = true ∧ c.scheduled = true)
    (fun {c c'} ⟨hhoused, hshut, hclosed, hscheduled⟩ hturn =>
      ⟨hhoused.turn hturn, Control.shut_of_turn hturn hshut, hturn.closed hclosed,
        hhoused.scheduled_turn hshut hscheduled hturn⟩)
    hstay ⟨housed_of_run hhoused hwhole, List.mem_cons_of_mem _ (List.mem_singleton_self _), rfl, rfl⟩
    hafter
  exact ⟨hclosed, hscheduled⟩

end Journal

end BatchJournal
