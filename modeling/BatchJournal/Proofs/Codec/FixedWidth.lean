import BatchJournal.Codec.FixedWidth
import BatchJournal.Proofs.Codec.Reads

namespace BatchJournal

/-!
# The fixed-width layout is read as it was written

Every count and length is a word of eight bytes, so a mutation set is read off what was written for
it as long as the whole is shorter than the 2⁶⁴ bytes that such a word can count.  The bound passes
down to the parts, none of which is longer than the whole.

* `FixedWidth.reads_text`, `FixedWidth.reads_blob` — lengths and what they announce.
* `FixedWidth.reads_edit`, `FixedWidth.reads_mutation` — the fields of each structure in turn.
* `FixedWidth.reads_encode` — mutation sets.
-/

open Reader

namespace FixedWidth

/-! ### Counts, byte strings and texts -/

theorem reads_count {n : Nat} (h : n < UInt64.size) : (little 8).Reads (count n) n :=
  reads_little h

/-- A `kind` is read as its number. -/
theorem reads_kind {n : Nat} (h : n < UInt32.size) : (little 4).Reads (kind n) n :=
  reads_little h

theorem length_count (n : Nat) : (count n).length = 8 := Bytes.length_littleEndian 8 n

theorem reads_blob {bs : Bytes} (h : (blob bs).length < UInt64.size) :
    readBlob.Reads (blob bs) bs := by
  rw [blob, List.length_append] at h
  exact (reads_count (by omega)).bind (reads_take bs)

theorem reads_text {s : String} (h : (text s).length < UInt64.size) :
    readText.Reads (text s) s := by
  rw [text, blob, List.length_append] at h
  exact (reads_count (by omega)).bind (Reader.reads_text s)

/-! ### Edits and mutations -/

/-- An edit is read by its `kind`, one case for each. -/
theorem reads_edit {e : Edit} (h : (edit e).length < UInt64.size) :
    readEdit.Reads (edit e) e := by
  cases e with
  | upsert clustering column value =>
    simp only [edit, List.length_append] at h
    have hclustering : readText.Reads (text clustering) clustering := reads_text (by omega)
    have hcolumn : readText.Reads (text column) column := reads_text (by omega)
    have hvalue : readBlob.Reads (blob value) value := reads_blob (by omega)
    exact (reads_kind (by decide)).bind
      (hclustering.bind (hcolumn.bind (hvalue.bind_nil (.pure _))))
  | deleteCell clustering column =>
    simp only [edit, List.length_append] at h
    have hclustering : readText.Reads (text clustering) clustering := reads_text (by omega)
    have hcolumn : readText.Reads (text column) column := reads_text (by omega)
    exact (reads_kind (by decide)).bind (hclustering.bind (hcolumn.bind_nil (.pure _)))
  | deletePartition => exact (reads_kind (by decide)).bind_nil (.pure _)

theorem edit_ne_nil (e : Edit) : edit e ≠ [] := by
  cases e <;> simp [edit, kind, Bytes.littleEndian]

theorem reads_mutation {m : Mutation} (h : (mutation m).length < UInt64.size) :
    readMutation.Reads (mutation m) m := by
  simp only [mutation, List.length_append] at h
  -- No edit is written with nothing, so the bytes bound the count of the edits too.
  have hcount := length_le_flatMap edit_ne_nil m.edits
  have hkeyspace : readText.Reads (text m.table.keyspace) m.table.keyspace :=
    reads_text (by omega)
  have htable : readText.Reads (text m.table.table) m.table.table := reads_text (by omega)
  have hkey : readBlob.Reads (blob m.key) m.key := reads_blob (by omega)
  have hedits : (readEdit.times m.edits.length).Reads (m.edits.flatMap edit) m.edits := by
    refine .times fun e he => reads_edit ?_
    have hlength := length_written_le edit he
    omega
  exact hkeyspace.bind (htable.bind (hkey.bind
    ((reads_count (by omega)).bind (hedits.bind_nil (.pure m)))))

theorem mutation_ne_nil (m : Mutation) : mutation m ≠ [] := by
  intro h
  have hlength := congrArg List.length h
  simp only [mutation, text, blob, List.length_append, length_count, List.length_nil] at hlength
  omega

/-- **A mutation set is read as `encode` wrote it.** -/
theorem reads_encode {ms : List Mutation} (h : (encode ms).length < UInt64.size) :
    mutations.Reads (encode ms) ms := by
  have hcount := length_le_flatMap mutation_ne_nil ms
  rw [encode, List.length_append] at h
  refine (reads_count (by omega)).bind (.times fun m hm => reads_mutation ?_)
  have hmutation := length_written_le mutation hm
  omega

end FixedWidth

end BatchJournal
