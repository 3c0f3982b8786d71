import BatchJournal.Codec.Registry
import BatchJournal.Proofs.Codec.Reads

namespace BatchJournal

/-!
# MessagePack is read as it was written

Every part of a mutation set is read off its narrowest spelling, so long as the whole is shorter
than the 2³² bytes that the widest head can announce.  A part is no longer than the whole, so the
bound passes down from the mutation set to every text and byte string in it.

* `Head.reads_arrayOf` and the like — every head.
* `MutationSet.reads_edit`, `MutationSet.reads_mutation` — every structure, as an array of fields.
* `MutationSet.reads_encode` — mutation sets.
-/

open Reader

/-! ### Heads -/

namespace Head

/-- A marker is read with what `afterMarker` gives for it. -/
theorem reads_marker {marker : UInt8} {bs : Bytes} {head : Head}
    (h : (afterMarker marker).Reads bs head) : read.Reads (marker :: bs) head :=
  (reads_byte marker).bind h

/-- A marker that announces a word is read with the word, if that is within its width. -/
theorem reads_word {marker : UInt8} {head : Nat → Head} {width n : Nat}
    (h : afterMarker marker = head <$> big width) (hn : n < Bytes.wordCount width) :
    read.Reads (marker :: Bytes.bigEndian width n) (head n) :=
  reads_marker (h ▸ (reads_big hn).map head)

/-- Heads that are a single byte: the first marker, how many there are, and the head of each. -/
def smallForms : List (Nat × Nat × (Nat → Head)) :=
  [(0x00, 128, .unsigned), (0x80, 16, .map), (0x90, 16, .array), (0xa0, 32, .text)]

/-- A marker of `smallForms` is a number of its range. -/
theorem afterMarker_small : ∀ form ∈ smallForms, ∀ n < form.2.1,
    afterMarker (UInt8.ofNat (form.1 + n)) = pure (form.2.2 n) := by
  have hmarker : ∀ m < 256, (UInt8.ofNat m).toNat = m := by
    intro m hm
    rw [UInt8.toNat_ofNat']
    omega
  simp only [smallForms, List.forall_mem_cons, List.not_mem_nil]
  refine ⟨fun n hn => ?_, fun n hn => ?_, fun n hn => ?_, fun n hn => ?_, nofun⟩
  · simp only [afterMarker, hmarker (0x00 + n) (by omega)]
    rw [if_pos (by omega), Nat.zero_add]
  · simp only [afterMarker, hmarker (0x80 + n) (by omega)]
    rw [if_neg (by omega), if_pos (by omega), Nat.add_sub_cancel_left]
  · simp only [afterMarker, hmarker (0x90 + n) (by omega)]
    rw [if_neg (by omega), if_neg (by omega), if_pos (by omega), Nat.add_sub_cancel_left]
  · simp only [afterMarker, hmarker (0xa0 + n) (by omega)]
    rw [if_neg (by omega), if_neg (by omega), if_neg (by omega), if_pos (by omega),
      Nat.add_sub_cancel_left]

theorem reads_arrayOf {n : Nat} (h : n < UInt32.size) : read.Reads (arrayOf n) (.array n) := by
  unfold arrayOf
  split
  · rename_i hsmall
    refine reads_marker ?_
    rw [afterMarker_small (0x90, 16, .array) (by simp [smallForms]) n hsmall]
    exact .pure _
  · split
    · rename_i hmiddle
      exact reads_word rfl hmiddle
    · exact reads_word rfl h

theorem reads_textOf {n : Nat} (h : n < UInt32.size) : read.Reads (textOf n) (.text n) := by
  unfold textOf
  split
  · rename_i hsmall
    refine reads_marker ?_
    rw [afterMarker_small (0xa0, 32, .text) (by simp [smallForms]) n hsmall]
    exact .pure _
  · split
    · rename_i hshort
      exact reads_word rfl hshort
    · split
      · rename_i hmiddle
        exact reads_word rfl hmiddle
      · exact reads_word rfl h

theorem reads_mapOf_one : read.Reads (mapOf 1) (.map 1) := fun _ => rfl

theorem reads_byteOf (b : UInt8) : read.Reads (byteOf b) (.unsigned b.toNat) := by
  unfold byteOf
  split
  · rename_i hsmall
    refine reads_marker ?_
    have hlt : b.toNat < 0x80 := UInt8.lt_iff_toNat_lt.1 hsmall
    simp only [afterMarker, if_pos hlt]
    exact .pure _
  · refine reads_marker fun rest => ?_
    show some (Head.unsigned (b.toNat + 256 * 0), rest) = _
    rw [Nat.mul_zero, Nat.add_zero]

end Head

namespace MutationSet

/-! ### Scalars and sequences -/

theorem reads_text {s : String} (h : (text s).length < UInt32.size) : readText.Reads (text s) s := by
  rw [text, List.length_append] at h
  exact (Head.reads_textOf (by omega)).bind (Reader.reads_text s)

theorem reads_byte (b : UInt8) : readByte.Reads (Head.byteOf b) b := by
  refine (Head.reads_byteOf b).bind_nil ?_
  have hb : UInt8.ofNat b.toNat = b := UInt8.ofNat_toNat
  simp only [if_pos b.toNat_lt, hb]
  exact .pure b

theorem byteOf_ne_nil (b : UInt8) : Head.byteOf b ≠ [] := by
  unfold Head.byteOf
  split <;> simp

theorem reads_blob {bs : Bytes} (h : (blob bs).length < UInt32.size) :
    readBlob.Reads (blob bs) bs := by
  -- Every byte is spelled out, so there are fewer of them than bytes of the whole.
  have hlength := length_le_flatMap byteOf_ne_nil bs
  rw [blob, List.length_append] at h
  exact (Head.reads_arrayOf (by omega)).bind (.times fun b _ => reads_byte b)

/-- A sequence is read if its elements are. -/
theorem reads_sequence {α : Type} {element : Reader α} {written : α → Bytes} {as : List α}
    (hlength : as.length < UInt32.size) (h : ∀ a ∈ as, element.Reads (written a) a) :
    (readSequence element).Reads (Head.arrayOf as.length ++ as.flatMap written) as :=
  (Head.reads_arrayOf hlength).bind (.times h)

/-! ### Structures -/

/-- A structure is read from an array of its fields. -/
theorem reads_structure {σ : Type} {levels : Nat} {names : List String} {start s : σ}
    {field : σ → Nat → Reader σ} {bs : Bytes} (hlength : names.length < UInt32.size)
    (h : ((List.range names.length).foldlM field start).Reads bs s) :
    (readStructure levels names start field).Reads (Head.arrayOf names.length ++ bs) s := by
  refine (Head.reads_arrayOf hlength).bind ?_
  simp only [if_pos]
  exact h

/-- `once` reads a field that is not filled. -/
theorem reads_once {α : Type} {value : Reader α} {bs : Bytes} {a : α} (h : value.Reads bs a) :
    (once none value).Reads bs (some a) :=
  h.map some

/-- Two fields, one after the other. -/
theorem reads_two {σ : Type} {start s₂ : σ} {field : σ → Nat → Reader σ} {bs₁ bs₂ : Bytes} (s₁ : σ)
    (h₁ : (field start 0).Reads bs₁ s₁) (h₂ : (field s₁ 1).Reads bs₂ s₂) :
    ((List.range 2).foldlM field start).Reads (bs₁ ++ bs₂) s₂ :=
  h₁.bind (h₂.bind_nil (.pure s₂))

/-- Three fields, one after the other. -/
theorem reads_three {σ : Type} {start s₃ : σ} {field : σ → Nat → Reader σ}
    {bs₁ bs₂ bs₃ : Bytes} (s₁ s₂ : σ) (h₁ : (field start 0).Reads bs₁ s₁) (h₂ : (field s₁ 1).Reads bs₂ s₂)
    (h₃ : (field s₂ 2).Reads bs₃ s₃) :
    ((List.range 3).foldlM field start).Reads (bs₁ ++ (bs₂ ++ bs₃)) s₃ :=
  h₁.bind (h₂.bind (h₃.bind_nil (.pure s₃)))

theorem reads_table {levels : Nat} {t : TableName}
    (hkeyspace : (text t.keyspace).length < UInt32.size)
    (htable : (text t.table).length < UInt32.size) :
    (readTable levels).Reads (Head.arrayOf 2 ++ (text t.keyspace ++ text t.table)) t := by
  refine (reads_structure (s := (some t.keyspace, some t.table)) (by decide)
    (reads_two (some t.keyspace, none) ?_ ?_)).bind_nil ?_
  · exact (reads_once (reads_text hkeyspace)).bind_nil (.pure _)
  · exact (reads_once (reads_text htable)).bind_nil (.pure _)
  · exact .pure t

/-- The fields of a cell write. -/
theorem reads_upsert {levels : Nat} {clustering column : String} {value : Bytes}
    (hclustering : (text clustering).length < UInt32.size)
    (hcolumn : (text column).length < UInt32.size) (hvalue : (blob value).length < UInt32.size) :
    (readUpsert levels).Reads
      (Head.arrayOf 3 ++ (text clustering ++ (text column ++ blob value)))
      (.upsert clustering column value) := by
  refine (reads_structure (s := (some clustering, some column, some value)) (by decide)
    (reads_three (some clustering, none, none) (some clustering, some column, none)
      ?_ ?_ ?_)).bind_nil ?_
  · exact (reads_once (reads_text hclustering)).bind_nil (.pure _)
  · exact (reads_once (reads_text hcolumn)).bind_nil (.pure _)
  · exact (reads_once (reads_blob hvalue)).bind_nil (.pure _)
  · exact .pure (Edit.upsert clustering column value)

/-- The fields of a cell deletion. -/
theorem reads_deleteCell {levels : Nat} {clustering column : String}
    (hclustering : (text clustering).length < UInt32.size)
    (hcolumn : (text column).length < UInt32.size) :
    (readDeleteCell levels).Reads (Head.arrayOf 2 ++ (text clustering ++ text column))
      (.deleteCell clustering column) := by
  refine (reads_structure (s := (some clustering, some column)) (by decide)
    (reads_two (some clustering, none) ?_ ?_)).bind_nil ?_
  · exact (reads_once (reads_text hclustering)).bind_nil (.pure _)
  · exact (reads_once (reads_text hcolumn)).bind_nil (.pure _)
  · exact .pure (Edit.deleteCell clustering column)

/-! ### Edits and mutations -/

/-- A kind is read by its name, as `fieldNamed` finds it. -/
theorem reads_kind {name : String} {kind : Nat}
    (h : fieldNamed editKinds (Utf8.encode name) = some kind) :
    (kindAfter (.text (Utf8.encode name).length)).Reads (Utf8.encode name) kind := by
  refine (Reader.reads_take (Utf8.encode name)).bind_nil ?_
  rw [h]
  exact .pure kind

/-- The fields of an edit are read after its kind. -/
theorem reads_fields {name : String} {kind : Nat} {fields : Nat → Reader Edit} {bs : Bytes}
    {e : Edit} (hlength : (text name).length < UInt32.size)
    (hkind : fieldNamed editKinds (Utf8.encode name) = some kind)
    (h : (fields kind).Reads bs e) :
    (do fields (← kindAfter (← Head.read))).Reads (text name ++ bs) e := by
  rw [text, List.length_append] at hlength
  rw [text, List.append_assoc]
  exact (Head.reads_textOf (by omega)).bind ((reads_kind hkind).bind h)

theorem reads_edit {levels : Nat} {e : Edit} (h : (edit e).length < UInt32.size) :
    (readEdit levels).Reads (edit e) e := by
  cases e with
  | upsert clustering column value =>
    have hkind : fieldNamed editKinds (Utf8.encode "Upsert") = some 0 := by decide +kernel
    simp only [edit, List.length_append] at h
    refine Head.reads_mapOf_one.bind ?_
    simp only [if_pos]
    exact reads_fields (by omega) hkind (reads_upsert (by omega) (by omega) (by omega))
  | deleteCell clustering column =>
    have hkind : fieldNamed editKinds (Utf8.encode "DeleteCell") = some 1 := by decide +kernel
    simp only [edit, List.length_append] at h
    refine Head.reads_mapOf_one.bind ?_
    simp only [if_pos]
    exact reads_fields (by omega) hkind (reads_deleteCell (by omega) (by omega))
  | deletePartition =>
    have hkind : fieldNamed editKinds (Utf8.encode "DeletePartition") = some 2 := by
      decide +kernel
    -- A kind without fields is written alone and not as a map.
    simp only [edit, text, List.length_append] at h
    exact (Head.reads_textOf (by omega)).bind ((reads_kind hkind).bind_nil (.pure _))

theorem textOf_ne_nil (n : Nat) : Head.textOf n ≠ [] := by
  unfold Head.textOf
  split
  · simp
  · split
    · simp
    · split <;> simp

theorem edit_ne_nil (e : Edit) : edit e ≠ [] := by
  cases e with
  | upsert | deleteCell => simp [edit, Head.mapOf]
  | deletePartition => exact List.append_ne_nil_of_left_ne_nil (textOf_ne_nil _) _

theorem reads_mutation {levels : Nat} {m : Mutation} (h : (mutation m).length < UInt32.size) :
    (readMutation levels).Reads (mutation m) m := by
  simp only [mutation, List.length_append] at h
  have hedits := length_le_flatMap edit_ne_nil m.edits
  have htable : (readTable (levels - 1)).Reads
      (Head.arrayOf 2 ++ (text m.table.keyspace ++ text m.table.table)) m.table :=
    reads_table (by omega) (by omega)
  have hsequence : (readSequence (readEdit (levels - 2))).Reads
      (Head.arrayOf m.edits.length ++ m.edits.flatMap edit) m.edits := by
    refine reads_sequence (by omega) fun e he => reads_edit ?_
    have hlength := length_written_le edit he
    omega
  have hparts : mutation m = Head.arrayOf 3
      ++ ((Head.arrayOf 2 ++ (text m.table.keyspace ++ text m.table.table))
        ++ (blob m.key ++ (Head.arrayOf m.edits.length ++ m.edits.flatMap edit))) := by
    simp only [mutation, List.append_assoc]
  -- The writer lets the fields follow one another; the reader takes them one by one.
  rw [hparts]
  refine (reads_structure (s := (some m.table, some m.key, some m.edits)) (by decide)
    (reads_three (some m.table, none, none) (some m.table, some m.key, none) ?_ ?_ ?_)).bind_nil ?_
  · exact (reads_once htable).bind_nil (.pure _)
  · exact (reads_once (reads_blob (by omega))).bind_nil (.pure _)
  · exact (reads_once hsequence).bind_nil (.pure _)
  · exact .pure m

theorem mutation_ne_nil (m : Mutation) : mutation m ≠ [] := by
  simp [mutation, Head.arrayOf]

/-- **A mutation set is read as `encode` wrote it.** -/
theorem reads_encode {ms : List Mutation} (h : (encode ms).length < UInt32.size) :
    read.Reads (encode ms) ms := by
  have hlength := length_le_flatMap mutation_ne_nil ms
  rw [encode, List.length_append] at h
  refine reads_sequence (by omega) fun m hm => reads_mutation ?_
  have hmutation := length_written_le mutation hm
  omega

end MutationSet

/-! ### Payloads -/

/-- What a reader `Reads` is read whole by `readWhole`. -/
theorem Format.readWhole_of_reads {version : FormatVersion} {reader : Reader (List Mutation)}
    {payload : Bytes} {ms : List Mutation} (h : reader.Reads payload ms) :
    Format.readWhole version reader payload = .ok ms := by
  have hread := h []
  rw [List.append_nil] at hread
  simp only [Format.readWhole, hread]

/-- The current version of the standard registry is that of `messagePack`. -/
theorem Registry.format?_standard : Registry.standard.format? Registry.standard.current
    = some .messagePack := rfl

/-- **What the standard registry writes it reads back,** if no head is asked for more than it can
    announce. -/
theorem Registry.decode_standard {ms : List Mutation} {payload : Bytes}
    (h : Registry.standard.encode Registry.standard.current ms = .ok payload)
    (hlength : payload.length < UInt32.size) :
    Registry.standard.decode Registry.standard.current payload = .ok ms := by
  have hpayload : MutationSet.encode ms = payload := by
    simp only [Registry.encode, Registry.format?_standard] at h
    exact Except.ok.inj h
  subst hpayload
  simp only [Registry.decode, Registry.format?_standard]
  exact Format.readWhole_of_reads (MutationSet.reads_encode hlength)

end BatchJournal
