import BatchJournal.Proofs.Store.FailedWrites

namespace BatchJournal

/-!
# Logs that were not finished

A store creates its log and then writes the header.  If the process dies between the two, or within
the write, there is a log without a whole header (`Disk.Unfinished`), and every later opening takes
it for the file of somebody else.  No other death and no other failure leaves a log that cannot be
opened.

* `LogStore.opening_follows` — what an opening leaves, wherever it fails or dies.
* `LogStore.unfinished_runWith_iff`, `LogStore.unfinished_diesWith_iff` — where it has to fail or
  die to leave an unfinished log.
* `Site` — a directory through openings, calls, failures and deaths.
* `Site.Sound.step` — the log is not there, or unfinished, or a log of records.
* `Site.opens_unless_broken_off` — it opens unless its creation was broken off.
* `Site.unopenable_after_crash` — a crash after which it never opens.
-/

namespace Program

variable {α : Type} {after after' : α → Disk → Prop} {I : Disk → Prop}

/-- `Survives` of two things is `Survives` of both. -/
theorem Survives.and {p : Program α} {d : Disk} (h : p.Survives after d)
    (h' : p.Survives after' d) : p.Survives (fun a d' => after a d' ∧ after' a d') d := by
  induction p generalizing d with
  | done a => exact ⟨h, h'⟩
  | perform e next ih => exact ⟨ih _ h.1 h'.1, fun kept => ih _ (h.2 kept) (h'.2 kept)⟩

/-- **What every effect keeps,** a program keeps, whichever of its effects fail. -/
theorem survives_of_attempt (hkeep : ∀ d e, I d → I (d.attempt e).2) (p : Program α) {d : Disk}
    (h : I d) : p.Survives (fun _ d' => I d') d := by
  -- An effect that is broken off is nothing or a shorter write.
  have hpartway : ∀ d kept e, I d → I (d.partway kept e) := by
    intro d kept e h
    cases e with
    | writeLog | writeTemp => exact hkeep d _ h
    | makeDirectory | createLog | cutLog | seekLog | syncLog | createTemp | syncTemp | removeTemp
    | renameTemp | syncDirectory => exact h
  induction p generalizing d with
  | done a => exact h
  | perform e next ih => exact ⟨ih _ (hkeep d e h), fun kept => ih _ (hpartway d kept e h)⟩

end Program

namespace Disk

/-- **A log that was not finished:** a part of the header `Header.current`, and nothing else. -/
def Unfinished (d : Disk) : Prop :=
  d.directory = .present
    ∧ ∃ part, d.log = some part ∧ part <+: Header.current.encode ∧ part.length < Header.length

/-- Nothing stands in the way of a new log. -/
def Clear (d : Disk) : Prop := d.directory ≠ .plainFile ∧ d.limit = none

/-- **The logs that a store can leave:** none, an `Unfinished` one, or one that `Keeps` records. -/
def Known (d : Disk) : Prop := d.log = none ∨ d.Unfinished ∨ ∃ rs, d.Keeps rs

/-- **What a disk may become:** an `Unfinished` log stays one, and only where there was no log can
    there be one that was not unfinished before. -/
structure Follows (d d' : Disk) : Prop where
  /-- The log is of one of the kinds. -/
  known : d'.Known
  /-- It stays unfinished. -/
  stays : d.Unfinished → d'.Unfinished
  /-- It was unfinished, or not there. -/
  comes : d'.Unfinished → d.Unfinished ∨ d.log = none

variable {d d' : Disk} {rs : List Record}

/-- Everything that is done to a directory leaves the way `Clear`. -/
theorem Clear.attempt (h : d.Clear) (e : Effect) : (d.attempt e).2.Clear := by
  refine ⟨?_, (d.limit_attempt e).trans h.2⟩
  -- No effect makes a plain file of the directory, and the limit is the disk's own.
  cases e with
  | makeDirectory =>
    cases hdir : d.directory with
    | plainFile => exact absurd hdir h.1
    | absent | present => simp [Disk.attempt, hdir]
  | createLog | createTemp | writeTemp | removeTemp | renameTemp | cutLog =>
    simp only [Disk.attempt]
    split <;> exact h.1
  | writeLog =>
    simp only [Disk.attempt, written]
    split
    · split <;> exact h.1
    · exact h.1
  | seekLog | syncLog | syncTemp | syncDirectory => exact h.1

/-- Without a log a `Clear` disk has nothing, or the directory, perhaps with a temporary file. -/
theorem Clear.exists_eq (h : d.Clear) (hlog : d.log = none) :
    ∃ place temp, (place = .absent ∨ place = .present) ∧ d = ⟨place, none, temp, none⟩ := by
  obtain ⟨place, log, temp, limit⟩ := d
  obtain rfl : log = none := hlog
  obtain rfl : limit = none := h.2
  cases place with
  | plainFile => exact absurd rfl h.1
  | absent => exact ⟨_, temp, .inl rfl, rfl⟩
  | present => exact ⟨_, temp, .inr rfl, rfl⟩

/-- Where no log is, none is `Unfinished`. -/
theorem not_unfinished_of_none (h : d.log = none) : ¬ d.Unfinished := by
  rintro ⟨-, part, hpart, -⟩
  simp [h] at hpart

/-- A log that `Keeps` records has its header. -/
theorem not_unfinished_of_keeps (h : d.Keeps rs) : ¬ d.Unfinished := by
  rintro ⟨-, part, hpart, -, hshort⟩
  obtain ⟨-, file, tail, hlog, hholds⟩ := h
  obtain rfl := Option.some.inj (hpart.symm.trans hlog)
  have hlength := hholds.length_eq
  omega

/-- A log that `Keeps` records may become one of other records. -/
theorem follows_of_keeps {rs' : List Record} (h : d.Keeps rs) (h' : d'.Keeps rs') :
    d.Follows d' :=
  ⟨.inr (.inr ⟨rs', h'⟩), fun hpart => absurd hpart (not_unfinished_of_keeps h),
    fun hpart => absurd hpart (not_unfinished_of_keeps h')⟩

/-- **A part of the header** is an `Unfinished` log, unless it is the whole. -/
theorem unfinished_or_keeps {part : Bytes} (hdir : d.directory = .present)
    (hlog : d.log = some part) (hbegins : part <+: Header.current.encode) :
    d.Unfinished ∨ d.Keeps [] := by
  rcases Nat.lt_or_ge part.length Header.length with hshort | hlong
  · exact .inl ⟨hdir, part, hlog, hbegins, hshort⟩
  · obtain rfl := hbegins.eq_of_length (Nat.le_antisymm hbegins.length_le hlong)
    exact .inr ⟨hdir, _, [], hlog, Log.holds_header⟩

end Disk

namespace LogStore

variable {d : Disk} {rs : List Record}

/-! ### What an opening leaves -/

/-- Where an `Unfinished` log is, no store is opened, and it stays. -/
theorem opening_unfinished (directory : String) (options : StoreOptions) (h : d.Unfinished) :
    (opening directory options d).Survives
      (fun result d' => d'.Unfinished ∧ ∃ e, result = .error e) d := by
  obtain ⟨hdir, part, hlog, hpart, hshort⟩ := h
  have hmade := Disk.attempt_makeDirectory hdir
  simp only [opening, Program.survives_bind, Program.survives_effect, hmade, Bool.not_true,
    Bool.not_false, Bool.false_eq_true, if_false, if_true, hlog, recover, hshort,
    Program.survives_pure]
  exact ⟨⟨⟨hdir, part, hlog, hpart, hshort⟩, _, rfl⟩,
    fun _ => ⟨⟨hdir, part, hlog, hpart, hshort⟩, _, rfl⟩⟩

/-- Where a log `Keeps` records, `opening` leaves them. -/
theorem opening_keeps (directory : String) (options : StoreOptions) (h : d.Keeps rs) :
    (opening directory options d).Survives (fun _ d' => d'.Keeps rs) d := by
  obtain ⟨hdir, file, tail, hlog, hholds⟩ := h
  have hmade := Disk.attempt_makeDirectory hdir
  simp only [opening, Program.survives_bind, Program.survives_effect, hmade, Bool.not_true,
    Bool.not_false, Bool.false_eq_true, if_false, if_true, hlog, Program.survives_pure]
  exact ⟨(recover_survives _ options hdir hlog hholds).mono fun _ _ hleft => hleft.1,
    fun _ => ⟨hdir, file, tail, hlog, hholds⟩⟩

/-- Where no log is, `opening` creates a new one, or not. -/
theorem opening_creates (directory : String) (options : StoreOptions) (hlog : d.log = none) :
    (opening directory options d).Survives
      (fun _ d' => d'.log = none ∨ d'.Unfinished ∨ d'.Keeps []) d := by
  simp only [opening, Program.survives_bind, Program.survives_effect, hlog, Bool.not_false,
    if_true, Program.survives_pure]
  refine ⟨?_, fun _ => .inl hlog⟩
  -- The directory is made or the opening ends there, with no log as before.
  by_cases hmade : (d.attempt .makeDirectory).1 = true
  · obtain ⟨hdir, hsame⟩ := Disk.present_of_makeDirectory hmade
    simp only [hmade, Bool.not_true, Bool.false_eq_true, if_false, Program.survives_bind]
    refine (create_survives _ options hdir (hsame.trans hlog)).mono ?_
    rintro result d' ⟨hnone | ⟨hdir', part, hbegins, hpart⟩, -⟩
    · cases result <;> exact .inl hnone
    · cases result <;> exact .inr (Disk.unfinished_or_keeps hdir' hpart hbegins)
  · have hsame : (d.attempt .makeDirectory).2 = d := by
      cases hdir : d.directory <;> simp_all [Disk.attempt]
    simp only [hmade, Bool.not_false, if_true, Program.survives_pure]
    rw [hsame]
    exact .inl hlog

/-- **What `opening` leaves,** whichever of its effects fail, `Follows` what was there. -/
theorem opening_follows (directory : String) (options : StoreOptions) (h : d.Known) :
    (opening directory options d).Survives (fun _ d' => d.Follows d') d := by
  rcases h with hlog | hpart | ⟨rs, hkeeps⟩
  · refine (opening_creates directory options hlog).mono fun _ d' hleft => ?_
    exact ⟨hleft.imp_right (·.imp_right fun hkeeps => ⟨[], hkeeps⟩),
      fun hpart => absurd hpart (Disk.not_unfinished_of_none hlog), fun _ => .inr hlog⟩
  · exact (opening_unfinished directory options hpart).mono fun _ d' hleft =>
      ⟨.inr (.inl hleft.1), fun _ => hleft.1, fun _ => .inl hpart⟩
  · exact (opening_keeps directory options hkeeps).mono fun _ d' hleft =>
      Disk.follows_of_keeps hkeeps hleft

/-- A header of which `written` bytes are there is `Unfinished` if some are missing. -/
theorem unfinished_iff_of_header (temp : TempState) (written : Nat)
    (h : d = ⟨.present, some (Header.current.encode.take written), temp, none⟩) :
    d.Unfinished ↔ written < Header.length := by
  have hlength : (Header.current.encode.take written).length = min written Header.length :=
    List.length_take
  subst h
  constructor
  · rintro ⟨-, part, hpart, -, hshort⟩
    obtain rfl := Option.some.inj hpart
    omega
  · exact fun hwritten => ⟨rfl, _, rfl, List.take_prefix _ _, by omega⟩

/-- A whole header is not `Unfinished`. -/
theorem not_unfinished_header (temp : TempState)
    (h : d = ⟨.present, some Header.current.encode, temp, none⟩) : ¬ d.Unfinished := by
  rw [unfinished_iff_of_header temp Header.length h]
  exact Nat.lt_irrefl _

/-- A write of the header that is broken off leaves `written` bytes of it. -/
theorem partway_header (temp : TempState) (written : Nat) :
    Disk.partway ⟨.present, some [], temp, none⟩ written (.writeLog ⟨0, true⟩ Header.current.encode)
      = ⟨.present, some (Header.current.encode.take written), temp, none⟩ := by
  have hwrite := @Disk.attempt_writeLog ⟨.present, some [], temp, none⟩ [] rfl
    (Header.current.encode.take written)
  rw [Disk.admitted_of_unlimited rfl] at hwrite
  exact congrArg Prod.snd hwrite

/-- **Where an opening has to fail to leave an `Unfinished` log:** in its third operation, the write
    of the header, before the last byte of that is there. -/
theorem unfinished_runWith_iff (directory : String) (options : StoreOptions) (hclear : d.Clear)
    (hlog : d.log = none) (script : List (Option Nat)) :
    ((opening directory options d).runWith script d).2.Unfinished
      ↔ ∃ written rest, script = none :: none :: some written :: rest
        ∧ written < Header.length := by
  obtain ⟨place, temp, hfound, rfl⟩ := hclear.exists_eq hlog
  -- The first operation makes the directory, the second creates the log, the third writes the
  -- header.
  match script with
  | [] | [none] | [none, none] =>
    refine iff_of_false (not_unfinished_header temp ?_) (by simp)
    rcases hfound with rfl | rfl <;> rfl
  | some _ :: rest | none :: some _ :: rest =>
    refine iff_of_false (Disk.not_unfinished_of_none ?_) (by simp)
    rcases hfound with rfl | rfl <;> cases rest <;> rfl
  | none :: none :: some written :: rest =>
    rw [unfinished_iff_of_header temp written]
    · simp
    · rcases hfound with rfl | rfl <;> cases rest <;> exact partway_header temp written
  | none :: none :: none :: rest =>
    refine iff_of_false (not_unfinished_header temp ?_) (by simp)
    rcases hfound with rfl | rfl <;>
      rcases rest with _ | ⟨_ | _, _ | ⟨_ | _, _ | _⟩⟩ <;> rfl

/-- **Where an opening has to die to leave one:** there, or after that failed there. -/
theorem unfinished_diesWith_iff (directory : String) (options : StoreOptions) (hclear : d.Clear)
    (hlog : d.log = none) (script : List (Option Nat)) (kept : Nat) :
    ((opening directory options d).diesWith script kept d).Unfinished
      ↔ (script = [none, none] ∧ kept < Header.length)
        ∨ ∃ written rest, script = none :: none :: some written :: rest
          ∧ written < Header.length := by
  -- To die is to fail from there on, so only the place of the first failure counts.
  obtain ⟨k, heq⟩ := (opening directory options d).exists_runWith_eq_diesWith script kept d
  rw [heq, unfinished_runWith_iff directory options hclear hlog]
  match script with
  | [] | [none] | some _ :: _ | none :: some _ :: _ | none :: none :: none :: _ => simp
  | [none, none] => simp
  | none :: none :: some written :: rest => simp

/-! ### What can be opened -/

/-- Where no log is, and the way is `Clear`, a store is opened. -/
theorem opens_of_clear (directory : String) (options : StoreOptions) (hclear : d.Clear)
    (hlog : d.log = none) :
    ∃ s warnings, (openOn directory options d).1 = .ok (s, warnings) := by
  obtain ⟨place, temp, hfound, rfl⟩ := hclear.exists_eq hlog
  rcases hfound with rfl | rfl <;> exact ⟨_, _, rfl⟩

/-- **An `Unfinished` log is refused** as `corruption`, whatever the options are. -/
theorem refused_of_unfinished (directory : String) (options : StoreOptions) (h : d.Unfinished) :
    (openOn directory options d).1 = .error (.corruption
      (directory ++ "/" ++ fileName ++ ": unreadable header: failed to fill whole buffer")) := by
  obtain ⟨hdir, part, hlog, -, hshort⟩ := h
  simp only [openOn, opening, Program.run_bind, Program.run_effect, Disk.attempt, hdir, hlog,
    Bool.not_true, Bool.false_eq_true, if_false, recover, hshort, if_true, Program.run_pure]

/-! ### What a call leaves -/

variable {s : LogStore} {culprit : Option Record}

/-- A store, working or broken, has a log that `Keeps` records. -/
theorem Condition.keeps (h : s.Condition d rs culprit) : ∃ rs', d.Keeps rs' := by
  cases culprit with
  | none => exact ⟨rs, InStep.keeps h⟩
  | some failed =>
    rcases Torn.keeps h with hkeeps | hkeeps
    · exact ⟨_, hkeeps⟩
    · exact ⟨_, hkeeps⟩

/-- **Every call** leaves the store in some `Condition`, working or broken. -/
theorem Condition.respond (h : s.Condition d rs culprit) (c : LogCall) :
    (s.respond c).Survives
      (fun result d' => ∃ rs' culprit', result.2.Condition d' rs' culprit') d := by
  cases culprit with
  | none =>
    have hstep : s.InStep d rs := h
    -- A store in step stays so or is torn by the record of this call.
    refine (call_inStep hstep c).mono ?_
    rintro result d' (⟨rs', hstep'⟩ | ⟨r, -, htorn⟩)
    · exact ⟨rs', none, hstep'⟩
    · exact ⟨rs, some r, htorn⟩
  | some failed =>
    have htorn : s.Torn d rs failed := h
    -- A torn one is repaired by compaction alone; every other call leaves log and index.
    refine (call_torn htorn c).mono ?_
    rintro result d' (⟨-, -, hstep⟩ | ⟨-, hd, unsynced, hresult⟩)
    · exact ⟨_, none, hstep⟩
    · exact ⟨rs, some failed, hresult ▸ (htorn.synced unsynced).sameLog hd⟩

end LogStore

/-! ### Directories -/

/-- A directory, with the store that is open on it, if there is one. -/
structure Site where
  /-- The store. -/
  store : Option LogStore
  /-- The disk. -/
  disk : Disk

/-- **What happens at a directory.**  A script says which file operations fail on the way; where the
    process dies it is that of the operations before. -/
inductive SiteEvent where
  /-- A store is opened. -/
  | opens (directory : String) (options : StoreOptions) (script : List (Option Nat))
  /-- The process dies while it opens a store. -/
  | diesOpening (directory : String) (options : StoreOptions) (script : List (Option Nat))
      (kept : Nat)
  /-- The store is called. -/
  | calls (call : LogCall) (script : List (Option Nat))
  /-- The process dies in a call. -/
  | diesCalling (call : LogCall) (script : List (Option Nat)) (kept : Nat)
  /-- The store is closed. -/
  | closes (script : List (Option Nat))
  /-- The process dies between two calls. -/
  | dies

/-- **An opening that comes to write a header** and breaks off, by a failure or a death, before the
    last byte of it is there.  The operations before are those that make the directory and create
    the log. -/
def SiteEvent.breaksOff : SiteEvent → Bool
  | .opens _ _ (none :: none :: some written :: _)
  | .diesOpening _ _ (none :: none :: some written :: _) _ => written < Header.length
  | .diesOpening _ _ [none, none] kept => kept < Header.length
  | _ => false

theorem SiteEvent.breaksOff_opens {directory : String} {options : StoreOptions}
    {script : List (Option Nat)} :
    (opens directory options script).breaksOff = true
      ↔ ∃ written rest, script = none :: none :: some written :: rest
        ∧ written < Header.length := by
  match script with
  | none :: none :: some written :: rest => simp [breaksOff]
  | [] | [none] | [none, none] | some _ :: _ | none :: some _ :: _ | none :: none :: none :: _ =>
    simp [breaksOff]

theorem SiteEvent.breaksOff_diesOpening {directory : String} {options : StoreOptions}
    {script : List (Option Nat)} {kept : Nat} :
    (diesOpening directory options script kept).breaksOff = true
      ↔ (script = [none, none] ∧ kept < Header.length)
        ∨ ∃ written rest, script = none :: none :: some written :: rest
          ∧ written < Header.length := by
  match script with
  | none :: none :: some written :: rest => simp [breaksOff]
  | [none, none] => simp [breaksOff]
  | [] | [none] | some _ :: _ | none :: some _ :: _ | none :: none :: none :: _ =>
    simp [breaksOff]

namespace Site

/-- Nothing exists yet. -/
def fresh : Site := ⟨none, .fresh⟩

/-- **One event;** `none` where it is not possible. -/
def step (site : Site) : SiteEvent → Option Site
  | .opens directory options script =>
    if site.store.isSome then none
    else
      match (LogStore.opening directory options site.disk).runWith script site.disk with
      | (.ok (s, _), disk) => some ⟨some s, disk⟩
      | (.error _, disk) => some ⟨none, disk⟩
  | .diesOpening directory options script kept =>
    if site.store.isSome then none
    else
      some ⟨none, (LogStore.opening directory options site.disk).diesWith script kept site.disk⟩
  | .calls c script =>
    site.store.map fun s =>
      let ((_, s), disk) := (s.respond c).runWith script site.disk
      ⟨some s, disk⟩
  | .diesCalling c script kept =>
    site.store.map fun s => ⟨none, (s.respond c).diesWith script kept site.disk⟩
  | .closes script => site.store.map fun s => ⟨none, (s.close.runWith script site.disk).2⟩
  | .dies => site.store.map fun _ => ⟨none, site.disk⟩

/-- The events, one after another. -/
def run (site : Site) (events : List SiteEvent) : Option Site := events.foldlM step site

/-- **The creation of the log was broken off:** an event that `breaksOff` met a directory where no
    log was. -/
def BrokenOff (start : Site) (events : List SiteEvent) : Prop :=
  ∃ earlier e later before, events = earlier ++ e :: later
    ∧ start.run earlier = some before ∧ before.disk.log = none ∧ e.breaksOff = true

variable {site site' : Site} {e : SiteEvent} {events : List SiteEvent}

/-- **What a site is always like.** -/
structure Sound (site : Site) : Prop where
  /-- Nothing stands in the way of a new log. -/
  clear : site.disk.Clear
  /-- The log is of one of the kinds that a store leaves. -/
  known : site.disk.Known
  /-- An open store works, or is broken. -/
  store : ∀ s, site.store = some s → ∃ rs culprit, s.Condition site.disk rs culprit

theorem sound_fresh : fresh.Sound where
  clear := ⟨by decide, rfl⟩
  known := .inl rfl
  store s h := by simp [fresh] at h

/-- An open store has a log that `Keeps` records. -/
theorem Sound.keeps (h : site.Sound) {s : LogStore} (hs : site.store = some s) :
    ∃ rs, site.disk.Keeps rs := by
  obtain ⟨rs, culprit, hcondition⟩ := h.store s hs
  exact hcondition.keeps

/-- What `opening` does to a site, whether it ends or its process dies: the disk `Follows`, and the
    way is `Clear`. -/
theorem Sound.opening (h : site.Sound) (directory : String) (options : StoreOptions) :
    (LogStore.opening directory options site.disk).Survives
      (fun result d' => site.disk.Follows d' ∧ d'.Clear
        ∧ ∀ s warnings, result = .ok (s, warnings) → ∃ rs, s.InStep d' rs) site.disk := by
  refine (LogStore.opening_follows directory options h.known).and
    ((Program.survives_of_attempt (fun _ e hd => hd.attempt e) _ h.clear).and
      ((LogStore.opening_survives directory options site.disk).mono ?_))
  intro result d' hopened s warnings hresult
  obtain ⟨rs, hstep, -⟩ := hopened s warnings hresult
  exact ⟨rs, hstep⟩

/-- What `respond` does to a site, whether it ends or its process dies: the disk `Follows`, and the
    way is `Clear`. -/
theorem Sound.respond (h : site.Sound) {s : LogStore} (hs : site.store = some s) (c : LogCall) :
    (s.respond c).Survives
      (fun result d' => site.disk.Follows d' ∧ d'.Clear
        ∧ ∃ rs culprit, result.2.Condition d' rs culprit) site.disk := by
  obtain ⟨rs, culprit, hcondition⟩ := h.store s hs
  obtain ⟨rs₀, hkeeps⟩ := hcondition.keeps
  refine ((hcondition.respond c).and
    (Program.survives_of_attempt (fun _ e hd => hd.attempt e) _ h.clear)).mono ?_
  rintro result d' ⟨⟨rs', culprit', hcondition'⟩, hclear⟩
  obtain ⟨rs₁, hkeeps'⟩ := hcondition'.keeps
  exact ⟨Disk.follows_of_keeps hkeeps hkeeps', hclear, rs', culprit', hcondition'⟩

/-- **Every event** keeps `Sound`, and leaves an `Unfinished` log only where there was one or where
    no log was. -/
theorem Sound.step (h : site.Sound) (hstep : site.step e = some site') :
    site'.Sound ∧ site.disk.Follows site'.disk := by
  -- What a disk follows is only whether a log is there and whether its header is whole.
  have hsame : site.disk.Follows site.disk := ⟨h.known, id, .inl⟩
  cases e with
  | opens directory options script =>
    have hopened := (h.opening directory options).runWith script
    simp only [Site.step] at hstep
    split at hstep
    · simp at hstep
    · split at hstep
      · rename_i s warnings disk hrun
        rw [hrun] at hopened
        obtain rfl := Option.some.inj hstep
        obtain ⟨hfollows, hclear, hworks⟩ := hopened
        obtain ⟨rs, hinStep⟩ := hworks s warnings rfl
        refine ⟨⟨hclear, hfollows.known, fun s' hs' => ?_⟩, hfollows⟩
        obtain rfl := Option.some.inj hs'
        exact ⟨rs, none, hinStep⟩
      · rename_i err disk hrun
        rw [hrun] at hopened
        obtain rfl := Option.some.inj hstep
        exact ⟨⟨hopened.2.1, hopened.1.known, by simp⟩, hopened.1⟩
  | diesOpening directory options script kept =>
    obtain ⟨result, hfollows, hclear, -⟩ := (h.opening directory options).diesWith script kept
    simp only [Site.step] at hstep
    split at hstep
    · simp at hstep
    · obtain rfl := Option.some.inj hstep
      exact ⟨⟨hclear, hfollows.known, by simp⟩, hfollows⟩
  | calls c script =>
    obtain ⟨s, hs, rfl⟩ := Option.map_eq_some_iff.1 hstep
    obtain ⟨hfollows, hclear, rs, culprit, hcondition⟩ := (h.respond hs c).runWith script
    -- The store that the call leaves is the one the site holds from then on.
    refine ⟨⟨hclear, hfollows.known, fun s' hs' => ?_⟩, hfollows⟩
    obtain rfl := Option.some.inj hs'
    exact ⟨rs, culprit, hcondition⟩
  | diesCalling c script kept =>
    obtain ⟨s, hs, rfl⟩ := Option.map_eq_some_iff.1 hstep
    obtain ⟨result, hfollows, hclear, -⟩ := (h.respond hs c).diesWith script kept
    exact ⟨⟨hclear, hfollows.known, by simp⟩, hfollows⟩
  | closes script =>
    obtain ⟨s, hs, rfl⟩ := Option.map_eq_some_iff.1 hstep
    have hdisk := (s.close_survives site.disk).runWith script
    simp only [hdisk]
    exact ⟨⟨h.clear, h.known, by simp⟩, hsame⟩
  | dies =>
    obtain ⟨s, hs, rfl⟩ := Option.map_eq_some_iff.1 hstep
    exact ⟨⟨h.clear, h.known, by simp⟩, hsame⟩

/-! ### Histories -/

variable {start : Site}

theorem run_concat : start.run (events ++ [e]) = some site'
    ↔ ∃ site, start.run events = some site ∧ site.step e = some site' := by
  simp [run, List.foldlM_append, Option.bind_eq_some_iff]

/-- Where no log was, an event leaves an `Unfinished` one if and only if it `breaksOff`. -/
theorem Sound.unfinished_iff (h : site.Sound) (hlog : site.disk.log = none)
    (hstep : site.step e = some site') : site'.disk.Unfinished ↔ e.breaksOff = true := by
  -- An open store has a log, so this is an opening.
  have hshut : ∀ s, site.store ≠ some s := by
    rintro s hs
    obtain ⟨rs, -, file, tail, hfile, -⟩ := h.keeps hs
    simp [hlog] at hfile
  cases e with
  | opens directory options script =>
    have hdisk : site'.disk
        = ((LogStore.opening directory options site.disk).runWith script site.disk).2 := by
      simp only [Site.step] at hstep
      split at hstep
      · simp at hstep
      · split at hstep <;> (rename_i hrun; obtain rfl := Option.some.inj hstep; rw [hrun])
    rw [hdisk, LogStore.unfinished_runWith_iff directory options h.clear hlog,
      SiteEvent.breaksOff_opens]
  | diesOpening directory options script kept =>
    have hdisk : site'.disk
        = (LogStore.opening directory options site.disk).diesWith script kept site.disk := by
      simp only [Site.step] at hstep
      split at hstep
      · simp at hstep
      · rw [← Option.some.inj hstep]
    rw [hdisk, LogStore.unfinished_diesWith_iff directory options h.clear hlog,
      SiteEvent.breaksOff_diesOpening]
  | calls | diesCalling | closes | dies =>
    obtain ⟨s, hs, -⟩ := Option.map_eq_some_iff.1 hstep
    exact absurd hs (hshut s)

/-- With one more event, the creation was `BrokenOff` before or by that one. -/
theorem brokenOff_concat (hrun : start.run events = some site) :
    start.BrokenOff (events ++ [e])
      ↔ start.BrokenOff events ∨ (site.disk.log = none ∧ e.breaksOff = true) := by
  constructor
  · rintro ⟨earlier, e', later, before, hevents, hearlier, hlog, hbreaks⟩
    rcases List.eq_nil_or_concat later with rfl | ⟨later, e'', rfl⟩
    · -- It is the last event.
      obtain ⟨rfl, hlast⟩ := List.append_inj' hevents rfl
      obtain rfl := List.singleton_inj.1 hlast
      obtain rfl := Option.some.inj (hrun.symm.trans hearlier)
      exact .inr ⟨hlog, hbreaks⟩
    · rw [List.concat_eq_append, ← List.cons_append, ← List.append_assoc] at hevents
      obtain ⟨rfl, -⟩ := List.append_inj' hevents rfl
      exact .inl ⟨earlier, e', later, before, rfl, hearlier, hlog, hbreaks⟩
  · rintro (⟨earlier, e', later, before, rfl, hrest⟩ | ⟨hlog, hbreaks⟩)
    · exact ⟨earlier, e', later ++ [e], before, by simp, hrest⟩
    · exact ⟨events, e, [], site, rfl, hrun, hlog, hbreaks⟩

/-- **Every run** keeps `Sound`, and the log is `Unfinished` if and only if its creation was
    `BrokenOff`. -/
theorem sound_of_run (hrun : fresh.run events = some site) :
    site.Sound ∧ (site.disk.Unfinished ↔ fresh.BrokenOff events) := by
  induction events using List.reverseRecOn generalizing site with
  | nil =>
    obtain rfl := Option.some.inj hrun
    refine ⟨sound_fresh, fun hpart => absurd hpart (Disk.not_unfinished_of_none rfl), ?_⟩
    rintro ⟨earlier, e, later, -, hevents, -⟩
    simp at hevents
  | append_singleton events e ih =>
    obtain ⟨before, hbefore, hstep⟩ := run_concat.1 hrun
    obtain ⟨hsound, hiff⟩ := ih hbefore
    obtain ⟨hsound', hfollows⟩ := hsound.step hstep
    refine ⟨hsound', ?_⟩
    -- An unfinished log stays unfinished, so the creation has to be looked at only where no log
    -- was.
    rw [brokenOff_concat hbefore, ← hiff]
    constructor
    · intro hpart
      exact (hfollows.comes hpart).imp_right fun hlog =>
        ⟨hlog, (hsound.unfinished_iff hlog hstep).1 hpart⟩
    · rintro (hpart | ⟨hlog, hbreaks⟩)
      · exact hfollows.stays hpart
      · exact (hsound.unfinished_iff hlog hstep).2 hbreaks

/-- **A directory opens unless the creation of its log was broken off.**  Let stores be opened in a
    directory that did not exist, and let them be called and closed, and let any file operation fail
    and the process die at any point of all that.  Then at any time the log can be opened if and
    only if its creation was not broken off, that is if no opening that found no log failed or died
    between the creation of the log and the last byte of its header.  If one did, the log is taken
    for a corrupt file from then on. -/
theorem opens_unless_broken_off (hrun : fresh.run events = some site) :
    (∀ directory options,
        (∃ s warnings, (LogStore.openOn directory options site.disk).1 = .ok (s, warnings))
          ↔ ¬ fresh.BrokenOff events)
      ∧ (fresh.BrokenOff events → ∀ directory options,
        (LogStore.openOn directory options site.disk).1 = .error (.corruption (directory ++ "/"
          ++ LogStore.fileName ++ ": unreadable header: failed to fill whole buffer"))) := by
  obtain ⟨hsound, hiff⟩ := sound_of_run hrun
  rw [← hiff]
  refine ⟨fun directory options => ⟨?_, fun hwhole => ?_⟩,
    fun hpart directory options => LogStore.refused_of_unfinished directory options hpart⟩
  · rintro ⟨s, warnings, hopen⟩ hpart
    rw [LogStore.refused_of_unfinished directory options hpart] at hopen
    simp at hopen
  · -- Of the three states of a log the proper part of a header is the only one not to open.
    rcases hsound.known with hlog | hpart | ⟨rs, hkeeps⟩
    · exact LogStore.opens_of_clear directory options hsound.clear hlog
    · exact absurd hpart hwhole
    · obtain ⟨s, warnings, hopen, -⟩ := (LogStore.opening_ensures directory options hkeeps).run
      exact ⟨s, warnings, hopen⟩

/-- A process that dies before it syncs the header leaves a log that opens. -/
theorem opens_unless_broken_off_unsynced :
    ∃ site, fresh.run
        [.diesOpening "batches" ⟨.always, .zero, 1, default⟩ [none, none, none] 0] = some site
      ∧ ∃ s warnings, (LogStore.openOn "batches" ⟨.always, .zero, 1, default⟩ site.disk).1
        = .ok (s, warnings) := by
  obtain ⟨site, hrun⟩ : ∃ site, fresh.run
      [.diesOpening "batches" ⟨.always, .zero, 1, default⟩ [none, none, none] 0] = some site :=
    ⟨_, rfl⟩
  -- It dies in the sync, and by then the header is written whole.
  refine ⟨site, hrun, ((opens_unless_broken_off hrun).1 "batches" _).2 ?_⟩
  rintro ⟨earlier, e, later, before, hevents, -, -, hbreaks⟩
  have he : e ∈ earlier ++ e :: later := by simp
  rw [← hevents, List.mem_singleton] at he
  subst he
  simp [SiteEvent.breaksOff] at hbreaks

/-- **A crash can make the log unopenable:** the process that opens the first store dies after seven
    bytes of the header, and no store opens after it. -/
theorem unopenable_after_crash :
    ∃ site, fresh.run [.diesOpening "batches" ⟨.always, .zero, 1, default⟩ [none, none] 7] = some site
      ∧ site.store.isNone = true ∧ site.disk.log = some (Header.current.encode.take 7)
      ∧ ∃ text, (LogStore.openOn "batches" ⟨.always, .zero, 1, default⟩ site.disk).1
        = .error (.corruption text) :=
  ⟨_, rfl, rfl, rfl, _, rfl⟩

end Site

end BatchJournal
