import BatchJournal.Bytes.Reader

namespace BatchJournal

/-!
# What a reader reads off the front

A reader reads a value off some bytes if it does so whatever follows them.  Readers are put together
from smaller ones, and so is what they read.

* `Reader.Reads` — a reader takes exactly the given bytes, for a given value.
* `Reader.Reads.bind`, `Reader.Reads.times` — one reader after another, and one many times over.
-/

namespace Reader

variable {α β : Type} {r : Reader α} {bs bs' : Bytes} {a : α} {b : β}

/-- **A reader reads a value:** `r` takes `bs` off the front and gives `a`, whatever follows. -/
def Reads (r : Reader α) (bs : Bytes) (a : α) : Prop := ∀ rest, r (bs ++ rest) = some (a, rest)

/-! ### Sequencing -/

theorem Reads.pure (a : α) : Reads (pure a : Reader α) [] a := fun _ => rfl

/-- `>>=` goes on where the first reader stopped. -/
theorem Reads.bind {f : α → Reader β} (h : r.Reads bs a) (h' : (f a).Reads bs' b) :
    (r >>= f).Reads (bs ++ bs') b := by
  intro rest
  show (r (bs ++ bs' ++ rest)).bind (fun p => f p.1 p.2) = some (b, rest)
  rw [List.append_assoc, h]
  exact h' rest

/-- What follows a reader may read nothing. -/
theorem Reads.bind_nil {f : α → Reader β} (h : r.Reads bs a) (h' : (f a).Reads [] b) :
    (r >>= f).Reads bs b := by
  simpa using h.bind h'

theorem Reads.map (f : α → β) (h : r.Reads bs a) : (f <$> r).Reads bs (f a) := by
  rw [map_eq_pure_bind]
  exact h.bind_nil (.pure _)

/-! ### Bytes, words and text -/

theorem reads_take (bs : Bytes) : (take bs.length).Reads bs bs := fun rest =>
  Bytes.split?_append bs rest

theorem reads_byte (b : UInt8) : byte.Reads [b] b := fun _ => rfl

/-- A little-endian word is read if it is within its `width`. -/
theorem reads_little {width n : Nat} (h : n < Bytes.wordCount width) :
    (little width).Reads (Bytes.littleEndian width n) n := by
  have htake : (take width).Reads (Bytes.littleEndian width n) (Bytes.littleEndian width n) := by
    simpa using reads_take (Bytes.littleEndian width n)
  have hword : Bytes.ofLittleEndian (Bytes.littleEndian width n) = n := by
    rw [Bytes.ofLittleEndian_littleEndian, Nat.mod_eq_of_lt h]
  refine htake.bind_nil ?_
  rw [hword]
  exact .pure n

/-- A big-endian word is read if it is within its `width`. -/
theorem reads_big {width n : Nat} (h : n < Bytes.wordCount width) :
    (big width).Reads (Bytes.bigEndian width n) n := by
  have htake : (take width).Reads (Bytes.bigEndian width n) (Bytes.bigEndian width n) := by
    simpa using reads_take (Bytes.bigEndian width n)
  have hword : Bytes.ofBigEndian (Bytes.bigEndian width n) = n := by
    rw [Bytes.ofBigEndian_bigEndian, Nat.mod_eq_of_lt h]
  refine htake.bind_nil ?_
  rw [hword]
  exact .pure n

theorem reads_text (s : String) : (text (Utf8.encode s).length).Reads (Utf8.encode s) s := by
  refine (reads_take (Utf8.encode s)).bind_nil ?_
  rw [Utf8.decode?_encode]
  exact .pure s

/-! ### Repetition -/

/-- **`times`** reads a list whose elements `r` reads. -/
theorem Reads.times {as : List α} {written : α → Bytes} (h : ∀ a ∈ as, r.Reads (written a) a) :
    (r.times as.length).Reads (as.flatMap written) as := by
  induction as with
  | nil => exact fun rest => times_zero r rest
  | cons a as ih =>
    intro rest
    rw [List.length_cons, times_succ, List.flatMap_cons, List.append_assoc,
      h a List.mem_cons_self]
    simp only [ih (fun b hb => h b (List.mem_cons_of_mem a hb)) rest, Option.map_some]

/-- A list is no longer than what is `written` for it. -/
theorem length_le_flatMap {written : α → Bytes} (h : ∀ a, written a ≠ []) (as : List α) :
    as.length ≤ (as.flatMap written).length := by
  induction as with
  | nil => exact Nat.le_refl _
  | cons a as ih =>
    have hpos := List.length_pos_iff.2 (h a)
    simp only [List.flatMap_cons, List.length_append, List.length_cons]
    omega

/-- What is `written` for an element is no longer than what is written for the list. -/
theorem length_written_le (written : α → Bytes) {as : List α} {a : α} (h : a ∈ as) :
    (written a).length ≤ (as.flatMap written).length := by
  obtain ⟨front, back, rfl⟩ := List.append_of_mem h
  simp only [List.flatMap_append, List.flatMap_cons, List.length_append]
  omega

end Reader

end BatchJournal
