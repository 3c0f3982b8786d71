import BatchJournal.Proofs.Codec.Refusal

namespace BatchJournal

/-!
# The fixed-width layout has one spelling for each mutation set

Whatever the fixed-width reader takes is what is written for the value that it reads: a word of so
many bytes is the little-endian one of its number, valid UTF-8 is that of its text, and there are as
many bytes, edits and mutations as their counts announce.  No bound on the payload is needed, since
nothing is read that is not there.  MessagePack has many spellings, and no such law.

* `Reader.Spells`, `Reader.Completes` — what a reader takes is what is written for its value.
* `FixedWidth.spells_edit`, `FixedWidth.spells_mutation` — the structures, field by field.
* `FixedWidth.spells_mutations` — mutation sets.
* `Format.canonical_fixedWidth` — what is decoded is encoded as the same payload.
-/

/-! ### Readers that take what is written -/

namespace Reader

variable {α β : Type} {r : Reader α} {front : Bytes} {written : α → Bytes}

/-- **A reader spells a value:** whatever it takes is what is `written` for the value it reads. -/
def Spells (r : Reader α) (written : α → Bytes) : Prop :=
  ∀ (bs : Bytes) (a : α) (rest : Bytes), r bs = some (a, rest) → bs = written a ++ rest

/-- **A reader completes a spelling:** `front` and what it takes are together what is `written` for
    the value that it reads. -/
def Completes (r : Reader α) (front : Bytes) (written : α → Bytes) : Prop :=
  ∀ (bs : Bytes) (a : α) (rest : Bytes), r bs = some (a, rest) → front ++ bs = written a ++ rest

theorem Completes.spells (h : r.Completes [] written) : r.Spells written := h

/-- A reader with `Spells` completes whatever was taken before it. -/
theorem Spells.completes (h : r.Spells written) (front : Bytes) :
    r.Completes front fun a => front ++ written a := by
  intro bs a rest hread
  rw [h _ _ _ hread, List.append_assoc]

/-- Nothing more is taken for a value that has been spelled. -/
theorem Completes.pure {a : α} (h : front = written a) :
    (pure a : Reader α).Completes front written := by
  intro bs a' rest hread
  obtain ⟨rfl, rfl⟩ := Prod.mk.inj (Option.some.inj hread)
  rw [h]

theorem Completes.fail : (fail : Reader α).Completes front written := fun _ _ _ h => nomatch h

/-- A reader goes on with the spelling where another one stopped. -/
theorem Completes.bind {f : α → Reader β} {written' : β → Bytes} (h : r.Completes front written)
    (h' : ∀ a, (f a).Completes (written a) written') : (r >>= f).Completes front written' := by
  intro bs b rest hread
  obtain ⟨⟨a, middle⟩, hfirst, hsecond⟩ := Option.bind_eq_some_iff.1 hread
  rw [h _ _ _ hfirst]
  exact h' a _ _ _ hsecond

/-- `take n` completes a spelling with any `n` bytes. -/
theorem completes_take {n : Nat} {written : Bytes → Bytes}
    (h : ∀ bs, bs.length = n → front ++ bs = written bs) : (take n).Completes front written := by
  intro bs taken rest hread
  obtain ⟨rfl, hlength⟩ := Bytes.split?_eq_some_iff.1 hread
  rw [← List.append_assoc, h taken hlength]

/-- **Every word is the little-endian one** of its number. -/
theorem spells_little (width : Nat) : (little width).Spells (Bytes.littleEndian width) := by
  have htake : (take width).Completes []
      fun bs => Bytes.littleEndian width (Bytes.ofLittleEndian bs) := by
    refine completes_take fun bs hlength => ?_
    rw [← hlength, Bytes.littleEndian_ofLittleEndian, List.nil_append]
  exact Completes.spells (htake.bind fun bs => .pure rfl)

/-- **Valid UTF-8 is that of its text:** `text n` completes a spelling with the bytes of a
    string. -/
theorem completes_text {n : Nat} {written : String → Bytes}
    (h : ∀ s, (Utf8.encode s).length = n → front ++ Utf8.encode s = written s) :
    (text n).Completes front written := by
  intro bs s rest hread
  obtain ⟨⟨taken, middle⟩, htake, hdecode⟩ := Option.bind_eq_some_iff.1 hread
  obtain ⟨rfl, hlength⟩ := Bytes.split?_eq_some_iff.1 htake
  cases hs : Utf8.decode? taken with
  | none =>
    simp only [hs] at hdecode
    exact nomatch hdecode
  | some s' =>
    simp only [hs] at hdecode
    obtain ⟨rfl, rfl⟩ := Prod.mk.inj (Option.some.inj hdecode)
    obtain rfl := Utf8.encode_of_decode? hs
    rw [← List.append_assoc, h _ hlength]

/-- `times n` gives `n` values, each of them spelled. -/
theorem Spells.eq_of_times (h : r.Spells written) {n : Nat} {bs rest : Bytes} {as : List α}
    (hread : r.times n bs = some (as, rest)) : as.length = n ∧ bs = as.flatMap written ++ rest := by
  induction n generalizing bs as with
  | zero =>
    obtain ⟨rfl, rfl⟩ := Prod.mk.inj (Option.some.inj hread)
    exact ⟨rfl, rfl⟩
  | succ n ih =>
    rw [times_succ] at hread
    split at hread
    · exact nomatch hread
    · rename_i a middle hfirst
      obtain ⟨⟨as', rest'⟩, hmore, heq⟩ := Option.map_eq_some_iff.1 hread
      obtain ⟨rfl, rfl⟩ := Prod.mk.inj heq
      obtain ⟨hlength, rfl⟩ := ih hmore
      refine ⟨congrArg (· + 1) hlength, ?_⟩
      rw [h _ _ _ hfirst, List.flatMap_cons, List.append_assoc]

/-- `times n` completes a spelling that tells how many values there are. -/
theorem Spells.times (h : r.Spells written) {n : Nat} {written' : List α → Bytes}
    (h' : ∀ as, as.length = n → front ++ as.flatMap written = written' as) :
    (r.times n).Completes front written' := by
  intro bs as rest hread
  obtain ⟨hlength, rfl⟩ := h.eq_of_times hread
  rw [← List.append_assoc, h' as hlength]

end Reader

open Reader

/-! ### The layout, part by part -/

namespace FixedWidth

theorem spells_blob : readBlob.Spells blob :=
  Completes.spells (((spells_little 8).completes []).bind fun n =>
    completes_take fun bs hlength => by rw [← hlength]; rfl)

theorem spells_text : readText.Spells text :=
  Completes.spells (((spells_little 8).completes []).bind fun n =>
    completes_text fun s hlength => by rw [← hlength]; rfl)

/-- The kind settles which fields follow. -/
theorem spells_edit : readEdit.Spells edit := by
  refine Completes.spells (((spells_little 4).completes []).bind fun n => ?_)
  split
  · refine (spells_text.completes _).bind fun clustering => (spells_text.completes _).bind
      fun column => (spells_blob.completes _).bind fun value => .pure ?_
    simp only [edit, kind, List.append_assoc, List.nil_append]
  · refine (spells_text.completes _).bind fun clustering => (spells_text.completes _).bind
      fun column => .pure ?_
    simp only [edit, kind, List.append_assoc, List.nil_append]
  · exact .pure rfl
  · exact .fail

theorem spells_mutation : readMutation.Spells mutation := by
  refine Completes.spells ((spells_text.completes []).bind fun keyspace =>
    (spells_text.completes _).bind fun table => (spells_blob.completes _).bind fun key =>
      ((spells_little 8).completes _).bind fun n => ?_)
  -- The count is that of the edits read, so it is settled only when these are.
  have hedits : (readEdit.times n).Completes
      ([] ++ text keyspace ++ text table ++ blob key ++ Bytes.littleEndian 8 n)
      fun edits => mutation ⟨⟨keyspace, table⟩, key, edits⟩ := by
    refine spells_edit.times fun edits hlength => ?_
    rw [← hlength]
    simp only [mutation, count, List.append_assoc, List.nil_append]
  exact hedits.bind fun edits => .pure rfl

/-- **A mutation set is spelled in one way,** by `encode`. -/
theorem spells_mutations : mutations.Spells encode :=
  Completes.spells (((spells_little 8).completes []).bind fun n =>
    spells_mutation.times fun ms hlength => by rw [← hlength]; rfl)

end FixedWidth

/-! ### Payloads -/

namespace Format

/-- **A format is canonical** if each mutation set has one payload, and nothing else is read. -/
structure Canonical (f : Format) : Prop where
  /-- What is decoded is encoded as the same payload. -/
  spelled : ∀ payload ms, f.decode payload = .ok ms → f.encode ms = .ok payload
  /-- No two payloads are decoded alike. -/
  injective : ∀ payload payload' ms, f.decode payload = .ok ms → f.decode payload' = .ok ms →
    payload = payload'
  /-- What is not decoded is malformed, under the version and with the length of the payload. -/
  refused : ∀ payload, (∀ ms, f.decode payload ≠ .ok ms) →
    ∃ what, f.decode payload = .error (.malformed f.version payload.length what)
  /-- What is written for no mutation set is malformed. -/
  foreign : ∀ payload, (∀ ms, f.encode ms ≠ .ok payload) →
    ∃ what, f.decode payload = .error (.malformed f.version payload.length what)

/-- A format is `Canonical` if its reader `Spells` what is written, and reads whole payloads. -/
theorem canonical_of_spells {f : Format} {reader : Reader (List Mutation)}
    {written : List Mutation → Bytes} (hdecode : f.decode = readWhole f.version reader)
    (hencode : ∀ ms, f.encode ms = .ok (written ms)) (h : reader.Spells written) :
    f.Canonical := by
  -- A payload that is read is what would be written for the value.
  have hspelled : ∀ payload ms, f.decode payload = .ok ms → payload = written ms := by
    intro payload ms hread
    rw [hdecode] at hread
    have hwhole := h _ _ _ (eq_some_of_readWhole hread)
    rwa [List.append_nil] at hwhole
  -- Whatever is not read is refused as malformed, with its length.
  have hrefused : ∀ payload, (∀ ms, f.decode payload ≠ .ok ms) →
      ∃ what, f.decode payload = .error (.malformed f.version payload.length what) := by
    intro payload hne
    rw [hdecode] at hne ⊢
    refine malformed_of_readWhole fun ms hread => hne ms ?_
    simp only [readWhole, hread]
  refine ⟨fun payload ms hread => ?_, fun payload payload' ms hread hread' => ?_, hrefused,
    fun payload hforeign => hrefused payload fun ms hread => hforeign ms ?_⟩
  · rw [hencode, ← hspelled payload ms hread]
  · rw [hspelled payload ms hread, hspelled payload' ms hread']
  · rw [hencode, ← hspelled payload ms hread]

/-- **The fixed-width layout is `Canonical`,** for payloads of any length. -/
theorem canonical_fixedWidth : fixedWidth.version = ⟨1⟩ ∧ fixedWidth.Canonical :=
  ⟨rfl, canonical_of_spells rfl (fun _ => rfl) FixedWidth.spells_mutations⟩

/-- A payload of one mutation is the one that is written for what it reads as, and a count without
    the mutations is none. -/
theorem canonical_fixedWidth_deletePartition :
    let payload : Bytes := [1, 0, 0, 0, 0, 0, 0, 0, 0, 0, 0, 0, 0, 0, 0, 0, 1, 0, 0, 0, 0, 0, 0, 0,
      116, 0, 0, 0, 0, 0, 0, 0, 0, 1, 0, 0, 0, 0, 0, 0, 0, 2, 0, 0, 0]
    fixedWidth.encode [⟨⟨"", "t"⟩, [], [.deletePartition]⟩] = .ok payload
    ∧ ∃ what, fixedWidth.decode [255, 255, 255, 255, 255, 255, 255, 255]
      = .error (.malformed ⟨1⟩ 8 what) := by
  intro payload
  obtain ⟨-, hcanonical⟩ := canonical_fixedWidth
  have hread : FixedWidth.mutations payload
      = some ([⟨⟨"", "t"⟩, [], [.deletePartition]⟩], []) := by decide +kernel
  refine ⟨hcanonical.spelled payload _ ?_, ?_⟩
  · simp only [fixedWidth, readWhole, hread]
  · refine hcanonical.refused [255, 255, 255, 255, 255, 255, 255, 255] fun ms hread' => ?_
    simp only [fixedWidth] at hread'
    obtain ⟨-, hcount⟩ := FixedWidth.length_of_mutations (eq_some_of_readWhole hread')
    exact absurd hcount (by decide)

/-- **MessagePack is not `Canonical`:** an empty set may be announced in a wider head. -/
theorem not_canonical_messagePack : ¬ messagePack.Canonical := by
  intro hcanonical
  have hspelled := hcanonical.spelled [0xdc, 0, 0] [] rfl
  exact absurd (Except.ok.inj hspelled) (by decide)

end Format

end BatchJournal
