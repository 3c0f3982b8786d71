import BatchJournal.Bytes.Utf8

namespace BatchJournal

/-!
# Readers of byte strings

A reader takes a value from the front of a byte string and leaves the rest, or fails.  The mutation
formats are built from these: exact cuts, words, text, and counted repetition.
-/

/-- A reader of `α`: the value and the rest of the bytes, or failure. -/
abbrev Reader := StateT Bytes Option

namespace Reader

/-- The reader that gives `none`, whatever stands there. -/
def fail {α : Type} : Reader α := fun _ => none

/-- The next `n` bytes. -/
def take (n : Nat) : Reader Bytes := fun bs => bs.split? n

/-- The next byte. -/
def byte : Reader UInt8 := fun
  | [] => none
  | b :: rest => some (b, rest)

/-- A little-endian word of `width` bytes. -/
def little (width : Nat) : Reader Nat := do return Bytes.ofLittleEndian (← take width)

/-- A big-endian word of `width` bytes. -/
def big (width : Nat) : Reader Nat := do return Bytes.ofBigEndian (← take width)

/-- A value that must be there: `none` fails. -/
def ofOption {α : Type} : Option α → Reader α
  | some a => pure a
  | none => fail

/-- The next `n` bytes, as text. -/
def text (n : Nat) : Reader String := do ofOption (Utf8.decode? (← take n))

/-- `n` values in a row, put before those already read (latest first). -/
def timesOnto {α : Type} (r : Reader α) : List α → Nat → Reader (List α)
  | read, 0 => pure read.reverse
  | read, n + 1 => fun bs =>
    match r bs with
    | none => none
    | some (a, rest) => timesOnto r (a :: read) n rest

/-- **Repetition:** `n` values in a row. -/
def times {α : Type} (r : Reader α) (n : Nat) : Reader (List α) := timesOnto r [] n

/-- `n` values in a row, each handed with the state so far to a step. -/
def fold {σ : Type} (step : σ → Reader σ) : σ → Nat → Reader σ
  | s, 0 => pure s
  | s, n + 1 => fun bs =>
    match step s bs with
    | none => none
    | some (s', rest) => fold step s' n rest

/-! ### Repetition, step by step -/

@[simp] theorem times_zero {α : Type} (r : Reader α) (bs : Bytes) :
    times r 0 bs = some ([], bs) := rfl

theorem timesOnto_eq {α : Type} (r : Reader α) (read : List α) (n : Nat) (bs : Bytes) :
    timesOnto r read n bs = (times r n bs).map fun (as, rest) => (read.reverse ++ as, rest) := by
  induction n generalizing read bs with
  | zero =>
    show some (read.reverse, bs) = some (read.reverse ++ [], bs)
    rw [List.append_nil]
  | succ n ih =>
    simp only [timesOnto, times]
    cases r bs with
    | none => rfl
    | some p =>
      obtain ⟨a, rest⟩ := p
      simp only
      rw [ih (a :: read), ih [a]]
      cases times r n rest <;> simp

/-- The first of `n + 1` values is read before the others. -/
theorem times_succ {α : Type} (r : Reader α) (n : Nat) (bs : Bytes) :
    times r (n + 1) bs = match r bs with
      | none => none
      | some (a, rest) => (times r n rest).map fun (as, rest) => (a :: as, rest) := by
  show timesOnto r [] (n + 1) bs = _
  simp only [timesOnto]
  cases r bs with
  | none => rfl
  | some p =>
    obtain ⟨a, rest⟩ := p
    simp only
    rw [timesOnto_eq r [a]]
    rfl

end Reader

end BatchJournal
