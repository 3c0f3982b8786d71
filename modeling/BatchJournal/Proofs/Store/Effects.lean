import BatchJournal.Store.Disk

namespace BatchJournal

/-!
# Reasoning about programs of effects

What is to be known of a program is what holds when it is done, and what holds of the disk wherever
its process may die before.  `Program.Ensures crash after` says both at once and follows the program
effect by effect, so a program is dealt with in one walk through it.

* `Program.ensures_bind` — one program after another.
* `Program.Ensures.run`, `Program.Ensures.diesAfter` — what it says of a run and of a death.
* `Program.Undisturbed` — every effect that the program comes to perform succeeds.
* `Program.effects` — the effects that a run performs.
-/

/-! ### Bytes at the end of a file -/

/-- `overwrite` at the end of a file adds to it. -/
theorem Bytes.overwrite_length (new old : Bytes) :
    Bytes.overwrite old.length new old = old ++ new := by
  have hdrop : old.drop (old.length + new.length) = [] := List.drop_eq_nil_of_le (by omega)
  simp [Bytes.overwrite, Bytes.resize, hdrop]

/-- `resize` to a length that the file has already cuts it. -/
theorem Bytes.resize_of_le {length : Nat} {bs : Bytes} (h : length ≤ bs.length) :
    bs.resize length = bs.take length := by
  simp [Bytes.resize, Nat.sub_eq_zero_of_le h]

namespace Disk

/-- What is `admitted` of a write is a prefix of it. -/
theorem admitted_prefix (d : Disk) (position : Nat) (bytes : Bytes) :
    d.admitted position bytes <+: bytes := by
  unfold admitted
  split
  · exact List.prefix_rfl
  · split
    · exact List.prefix_rfl
    · exact List.take_prefix _ _

/-- `writeLog` at the end of the log adds what is `admitted`, and succeeds if that is everything. -/
theorem attempt_writeLog {d : Disk} {file : Bytes} (h : d.log = some file) (bytes : Bytes) :
    d.attempt (.writeLog ⟨file.length, true⟩ bytes)
      = (decide ((d.admitted file.length bytes).length = bytes.length),
          { d with log := some (file ++ d.admitted file.length bytes) }) := by
  have hwritten : ∀ kept : Bytes,
      d.written file.length kept = { d with log := some (file ++ kept) } := by
    intro kept
    unfold written
    split
    · rename_i hnil
      rw [List.isEmpty_iff.1 hnil, List.append_nil, ← h]
    · rw [h, Option.map_some, Bytes.overwrite_length]
  simp only [attempt, if_true, hwritten]

/-- `cutLog` within the log leaves its beginning. -/
theorem attempt_cutLog {d : Disk} {file : Bytes} (h : d.log = some file) {position length : Nat}
    (hle : length ≤ file.length) :
    d.attempt (.cutLog ⟨position, true⟩ length)
      = (true, { d with log := some (file.take length) }) := by
  simp [attempt, h, Bytes.resize_of_le hle]

/-- Of a `writeLog` at the end of the log that is broken off some first part is there. -/
theorem partway_writeLog {d : Disk} {file : Bytes} (h : d.log = some file) (bytes : Bytes)
    (kept : Nat) :
    ∃ part, part <+: bytes
      ∧ d.partway kept (.writeLog ⟨file.length, true⟩ bytes)
        = { d with log := some (file ++ part) } := by
  refine ⟨d.admitted file.length (bytes.take kept), ?_, ?_⟩
  · exact (d.admitted_prefix _ _).trans (List.take_prefix _ _)
  · simp only [partway, attempt_writeLog h]

/-- Where no log is, `createLog` makes an empty one. -/
theorem attempt_createLog {d : Disk} (h : d.log = none) :
    d.attempt .createLog = (true, { d with log := some [] }) := by
  simp [attempt, h]

/-- A directory that was made is there, and the log is as it was. -/
theorem present_of_makeDirectory {d : Disk} (h : (d.attempt .makeDirectory).1 = true) :
    (d.attempt .makeDirectory).2.directory = .present
      ∧ (d.attempt .makeDirectory).2.log = d.log := by
  cases hfound : d.directory <;> simp_all [attempt]

/-- A directory that is there need not be made: `makeDirectory` succeeds. -/
theorem attempt_makeDirectory {d : Disk} (h : d.directory = .present) :
    d.attempt .makeDirectory = (true, d) := by
  simp only [attempt, h]
  rw [← h]

/-- `syncLog` shows nothing. -/
@[simp] theorem attempt_syncLog (d : Disk) : d.attempt .syncLog = (true, d) := rfl

/-- `seekLog` shows nothing. -/
@[simp] theorem attempt_seekLog (d : Disk) (position : Nat) :
    d.attempt (.seekLog position) = (true, d) := rfl

/-- Where nothing limits the length of a file, a write is `admitted` as a whole. -/
theorem admitted_of_unlimited {d : Disk} (h : d.limit = none) (position : Nat) (bytes : Bytes) :
    d.admitted position bytes = bytes := by
  rw [admitted, h]

/-- No effect changes `limit`. -/
theorem limit_attempt (d : Disk) (e : Effect) : (d.attempt e).2.limit = d.limit := by
  cases e with
  | makeDirectory | createTemp | writeTemp | removeTemp | renameTemp =>
    simp only [attempt]
    split <;> rfl
  | createLog | cutLog =>
    simp only [attempt]
    split <;> rfl
  | writeLog =>
    simp only [attempt, written]
    split
    · split <;> rfl
    · rfl
  | seekLog | syncLog | syncTemp | syncDirectory => rfl

/-- With nothing done of it, an effect leaves the disk as it is. -/
theorem partway_zero (d : Disk) (e : Effect) : d.partway 0 e = d := by
  have hadmitted : ∀ position, d.admitted position [] = [] := by
    intro position
    exact List.prefix_nil.1 (d.admitted_prefix position [])
  cases e with
  | writeLog h bytes =>
    simp only [partway, List.take_zero, attempt, hadmitted]
    split <;> rfl
  | writeTemp bytes =>
    simp only [partway, List.take_zero, attempt, hadmitted]
    split
    · rename_i old hold
      rw [List.append_nil, ← hold]
    · rfl
  | makeDirectory | createLog | cutLog | seekLog | syncLog | createTemp | syncTemp | removeTemp
  | renameTemp | syncDirectory => rfl

/-! ### The temporary file -/

/-- Two disks with the same log in the same place. -/
structure SameLog (d d' : Disk) : Prop where
  /-- The directories agree. -/
  directory : d'.directory = d.directory
  /-- The logs agree. -/
  log : d'.log = d.log

theorem SameLog.refl (d : Disk) : d.SameLog d := ⟨rfl, rfl⟩

theorem SameLog.trans {d d' d'' : Disk} (h : d.SameLog d') (h' : d'.SameLog d'') :
    d.SameLog d'' :=
  ⟨h'.directory.trans h.directory, h'.log.trans h.log⟩

theorem sameLog_createTemp (d : Disk) : d.SameLog (d.attempt .createTemp).2 := by
  cases htemp : d.temp <;> simp only [attempt, htemp] <;> exact ⟨rfl, rfl⟩

theorem sameLog_writeTemp (d : Disk) (bytes : Bytes) :
    d.SameLog (d.attempt (.writeTemp bytes)).2 := by
  cases htemp : d.temp <;> simp only [attempt, htemp] <;> exact ⟨rfl, rfl⟩

theorem sameLog_removeTemp (d : Disk) : d.SameLog (d.attempt .removeTemp).2 := by
  cases htemp : d.temp <;> simp only [attempt, htemp] <;> exact ⟨rfl, rfl⟩

/-- After `createTemp` the temporary file is empty. -/
theorem temp_createTemp {d : Disk} (h : (d.attempt .createTemp).1 = true) :
    (d.attempt .createTemp).2.temp = .file [] := by
  cases htemp : d.temp <;> simp_all [attempt]

/-- What was written to an empty temporary file is there. -/
theorem temp_writeTemp {d : Disk} {bytes : Bytes} (hempty : d.temp = .file [])
    (h : (d.attempt (.writeTemp bytes)).1 = true) :
    (d.attempt (.writeTemp bytes)).2.temp = .file bytes := by
  simp only [attempt, hempty, decide_eq_true_eq] at h ⊢
  rw [(d.admitted_prefix _ bytes).eq_of_length h, List.nil_append]

/-- `renameTemp` puts the temporary file in the place of the log. -/
theorem attempt_renameTemp {d : Disk} {bytes : Bytes} (h : d.temp = .file bytes) :
    d.attempt .renameTemp = (true, { d with log := some bytes, temp := .free }) := by
  simp [attempt, h]

end Disk

/-! ### Programs -/

namespace Program

variable {α β : Type}

@[simp] theorem run_pure (a : α) (d : Disk) : (pure a : Program α).run d = (a, d) := rfl

@[simp] theorem run_effect (e : Effect) (d : Disk) : (effect e).run d = d.attempt e := rfl

@[simp] theorem run_bind (p : Program α) (f : α → Program β) (d : Disk) :
    (p >>= f).run d = (f (p.run d).1).run (p.run d).2 := by
  show (p.bind f).run d = _
  induction p generalizing d with
  | done a => rfl
  | perform e next ih => exact ih (d.attempt e).1 (d.attempt e).2

/-- **What a program ensures:** wherever its process dies the disk satisfies `crash`, and when it is
    done its result and the disk satisfy `after`. -/
def Ensures (crash : Disk → Prop) (after : α → Disk → Prop) : Program α → Disk → Prop
  | .done a, d => crash d ∧ after a d
  | .perform e next, d =>
    (∀ kept, crash (d.partway kept e))
      ∧ (next (d.attempt e).1).Ensures crash after (d.attempt e).2

variable {crash crash' : Disk → Prop} {after after' : α → Disk → Prop}

/-- The process may die at once. -/
theorem Ensures.start {p : Program α} {d : Disk} (h : p.Ensures crash after d) : crash d := by
  cases p with
  | done a => exact h.1
  | perform e next =>
    have hzero := h.1 0
    rwa [Disk.partway_zero] at hzero

@[simp] theorem ensures_pure (a : α) (d : Disk) :
    (pure a : Program α).Ensures crash after d ↔ crash d ∧ after a d := Iff.rfl

@[simp] theorem ensures_effect (e : Effect) (after : Bool → Disk → Prop) (d : Disk) :
    (effect e).Ensures crash after d
      ↔ (∀ kept, crash (d.partway kept e)) ∧ crash (d.attempt e).2
        ∧ after (d.attempt e).1 (d.attempt e).2 := Iff.rfl

/-- **One program after another** `Ensures` what the second does wherever the first may end. -/
theorem ensures_bind (p : Program α) (f : α → Program β) (after : β → Disk → Prop) (d : Disk) :
    (p >>= f).Ensures crash after d
      ↔ p.Ensures crash (fun a d' => (f a).Ensures crash after d') d := by
  show (p.bind f).Ensures crash after d ↔ _
  induction p generalizing d with
  | done a => exact ⟨fun h => ⟨h.start, h⟩, fun h => h.2⟩
  | perform e next ih => exact and_congr_right fun _ => ih (d.attempt e).1 (d.attempt e).2

/-- `Ensures` is monotone in what is asked at a crash and at the end. -/
theorem Ensures.mono {p : Program α} {d : Disk} (h : p.Ensures crash after d)
    (hcrash : ∀ d, crash d → crash' d) (hafter : ∀ a d, after a d → after' a d) :
    p.Ensures crash' after' d := by
  induction p generalizing d with
  | done a => exact ⟨hcrash d h.1, hafter a d h.2⟩
  | perform e next ih => exact ⟨fun kept => hcrash _ (h.1 kept), ih _ h.2⟩

/-- **A run** ends in what is ensured `after` the program. -/
theorem Ensures.run {p : Program α} {d : Disk} (h : p.Ensures crash after d) :
    after (p.run d).1 (p.run d).2 := by
  induction p generalizing d with
  | done a => exact h.2
  | perform e next ih => exact ih _ h.2

/-- **A death** leaves what is ensured at every `crash`. -/
theorem Ensures.diesAfter {p : Program α} {d : Disk} (h : p.Ensures crash after d)
    (effects kept : Nat) : crash (p.diesAfter effects kept d) := by
  induction p generalizing d effects with
  | done a =>
    cases effects <;> exact h.1
  | perform e next ih =>
    cases effects with
    | zero => exact h.1 kept
    | succ effects => exact ih _ h.2 effects

/-! ### Programs in which nothing fails -/

/-- **No call fails:** every effect that the program comes to perform succeeds. -/
def Undisturbed : Program α → Disk → Prop
  | .done _, _ => True
  | .perform e next, d =>
    (d.attempt e).1 = true ∧ (next (d.attempt e).1).Undisturbed (d.attempt e).2

instance decidableUndisturbed : (p : Program α) → (d : Disk) → Decidable (p.Undisturbed d)
  | .done _, _ => .isTrue trivial
  | .perform e next, d =>
    have := decidableUndisturbed (next (d.attempt e).1) (d.attempt e).2
    inferInstanceAs (Decidable (_ ∧ _))

@[simp] theorem undisturbed_pure (a : α) (d : Disk) : (pure a : Program α).Undisturbed d := trivial

@[simp] theorem undisturbed_effect (e : Effect) (d : Disk) :
    (effect e).Undisturbed d ↔ (d.attempt e).1 = true :=
  ⟨fun h => h.1, fun h => ⟨h, trivial⟩⟩

@[simp] theorem undisturbed_bind (p : Program α) (f : α → Program β) (d : Disk) :
    (p >>= f).Undisturbed d
      ↔ p.Undisturbed d ∧ (f (p.run d).1).Undisturbed (p.run d).2 := by
  show (p.bind f).Undisturbed d ↔ _
  induction p generalizing d with
  | done a => exact ⟨fun h => ⟨trivial, h⟩, fun h => h.2⟩
  | perform e next ih =>
    show (_ ∧ _) ↔ (_ ∧ _) ∧ _
    rw [and_assoc]
    exact and_congr_right fun _ => ih (d.attempt e).1 (d.attempt e).2

/-! ### What a run does to the disk -/

/-- **The effects that a run performs,** from the first to the last. -/
def effects : Program α → Disk → List Effect
  | .done _, _ => []
  | .perform e next, d => e :: (next (d.attempt e).1).effects (d.attempt e).2

@[simp] theorem effects_pure (a : α) (d : Disk) : (pure a : Program α).effects d = [] := rfl

@[simp] theorem effects_effect (e : Effect) (d : Disk) : (effect e).effects d = [e] := rfl

@[simp] theorem effects_bind (p : Program α) (f : α → Program β) (d : Disk) :
    (p >>= f).effects d = p.effects d ++ (f (p.run d).1).effects (p.run d).2 := by
  show (p.bind f).effects d = _
  induction p generalizing d with
  | done a => rfl
  | perform e next ih =>
    show e :: _ = (e :: _) ++ _
    rw [List.cons_append]
    exact congrArg (e :: ·) (ih (d.attempt e).1 (d.attempt e).2)

/-- No program changes `limit`. -/
theorem limit_run (p : Program α) (d : Disk) : (p.run d).2.limit = d.limit := by
  induction p generalizing d with
  | done a => rfl
  | perform e next ih => exact (ih (d.attempt e).1 (d.attempt e).2).trans (d.limit_attempt e)

end Program

end BatchJournal
