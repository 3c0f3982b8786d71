import BatchJournal.Log.Record
import BatchJournal.Proofs.Codec.FixedWidth
import BatchJournal.Proofs.Codec.MessagePack

namespace BatchJournal

/-!
# Whatever is registered, payloads come back

A registry dispatches by version and does nothing else, so what it writes it reads back if each of
its formats does.  Which format answers for a version is settled by the order of registration: the
last one that carries it.

* `Format.RoundTrips` — a format reads back what it wrote, as far as a log record can hold it.
* `Registry.format?_ofFormats` — the last format registered for a version answers for it.
* `Registry.current_mem_versions` — the current version is always among those that have a format.
* `Registry.round_trip` — the registries of the two formats.
-/

/-! ### One format -/

/-- **A format round-trips** if `encode` writes every mutation set and, where a log record can hold
    the payload, `decode` reads it back. -/
def Format.RoundTrips (f : Format) : Prop :=
  ∀ ms, ∃ payload, f.encode ms = .ok payload
    ∧ (payload.length ≤ Record.maxFramed → f.decode payload = .ok ms)

theorem Format.roundTrips_fixedWidth : fixedWidth.RoundTrips := by
  intro ms
  refine ⟨FixedWidth.encode ms, rfl, fun hlength => ?_⟩
  have hcounted : (FixedWidth.encode ms).length < UInt64.size :=
    Nat.lt_of_le_of_lt hlength (by decide)
  simp only [fixedWidth]
  exact readWhole_of_reads (FixedWidth.reads_encode hcounted)

theorem Format.roundTrips_messagePack : messagePack.RoundTrips := by
  intro ms
  refine ⟨MutationSet.encode ms, rfl, fun hlength => ?_⟩
  have hannounced : (MutationSet.encode ms).length < UInt32.size :=
    Nat.lt_of_le_of_lt hlength (by decide)
  simp only [messagePack]
  exact readWhole_of_reads (MutationSet.reads_encode hannounced)

namespace Registry

/-! ### Who answers for a version -/

theorem format?_single (f : Format) (v : FormatVersion) :
    (single f).format? v = if v = f.version then some f else none := by
  simp only [format?, single, OrderedMap.get?_insert, OrderedMap.get?_empty]

theorem format?_register (r : Registry) (f : Format) (v : FormatVersion) :
    (r.register f).format? v = if v = f.version then some f else r.format? v :=
  OrderedMap.get?_insert r.formats f.version v f

theorem find?_concat (fs : List Format) (f : Format) (v : FormatVersion) :
    (fs ++ [f]).find? (fun g => g.version = v)
      = (fs.find? fun g => g.version = v).or (if v = f.version then some f else none) := by
  rw [List.find?_append]
  by_cases h : v = f.version
  · subst h
    simp
  · have h' : f.version ≠ v := fun e => h e.symm
    simp [h, h']

/-- Of the formats registered one after another the last of a version `v` answers for it, and else
    what `r` had. -/
theorem format?_foldl (fs : List Format) (r : Registry) (v : FormatVersion) :
    (fs.foldl register r).format? v
      = (fs.reverse.find? fun f => f.version = v).or (r.format? v) := by
  induction fs generalizing r with
  | nil => rfl
  | cons f fs ih =>
    rw [List.foldl_cons, ih, format?_register, List.reverse_cons, find?_concat, Option.or_assoc]
    congr 1
    by_cases h : v = f.version <;> simp [h]

/-- **The last format registered for a version** is `format?` of it. -/
theorem format?_ofFormats (current : Format) (more : List Format) (v : FormatVersion) :
    (ofFormats current more).format? v
      = (current :: more).reverse.find? fun f => f.version = v := by
  rw [ofFormats, format?_foldl, format?_single, List.reverse_cons, find?_concat]

/-- Registering `more` leaves `current` what it was. -/
theorem current_ofFormats (current : Format) (more : List Format) :
    (ofFormats current more).current = current.version := by
  have hkept : ∀ (fs : List Format) (r : Registry), (fs.foldl register r).current = r.current := by
    intro fs
    induction fs with
    | nil => exact fun r => rfl
    | cons f fs ih => exact fun r => ih (r.register f)
  exact hkept more (single current)

/-- The `versions` are those for which `format?` has an answer. -/
theorem mem_versions_iff {r : Registry} {v : FormatVersion} :
    v ∈ r.versions ↔ ∃ f, r.format? v = some f := by
  rw [versions, OrderedMap.mem_keys_iff]
  exact exists_congr fun f => OrderedMap.get?_eq_some_iff.symm

theorem format?_eq_none_iff {r : Registry} {v : FormatVersion} :
    r.format? v = none ↔ v ∉ r.versions := by
  rw [mem_versions_iff, Option.eq_none_iff_forall_ne_some, not_exists]

/-- **The current version** always has a format: it is among `r.versions`. -/
theorem current_mem_versions (r : Registry) : r.current ∈ r.versions := by
  rw [mem_versions_iff]
  exact Option.isSome_iff_exists.1 r.current_mem

/-! ### Writing and reading by version -/

/-- What a version's format writes and reads back, `r.encode v` writes and `r.decode v` reads
    back. -/
theorem decode_of_encode {r : Registry} {v : FormatVersion} (hv : v ∈ r.versions)
    (h : ∀ f, r.format? v = some f → f.RoundTrips) (ms : List Mutation) :
    ∃ payload, r.encode v ms = .ok payload
      ∧ (payload.length ≤ Record.maxFramed → r.decode v payload = .ok ms) := by
  obtain ⟨f, hf⟩ := mem_versions_iff.1 hv
  obtain ⟨payload, hencode, hdecode⟩ := h f hf ms
  refine ⟨payload, ?_, fun hlength => ?_⟩
  · simp only [encode, hf]
    exact hencode
  · simp only [decode, hf]
    exact hdecode hlength

/-- A version without a format is refused by name, whatever is to be written or read:
    `unsupportedVersion v`. -/
theorem unsupported {r : Registry} {v : FormatVersion} (hv : v ∉ r.versions) :
    (∀ ms, r.encode v ms = .error (.unsupportedVersion v))
    ∧ ∀ payload, r.decode v payload = .error (.unsupportedVersion v) := by
  have hf := format?_eq_none_iff.2 hv
  refine ⟨fun ms => ?_, fun payload => ?_⟩
  · simp only [encode, hf]
  · simp only [decode, hf]

/-- **Mutation sets come back through every registry of the two formats,** whichever of them it was
    begun with and whatever was registered after that.  In a version that has a format every
    mutation set can be written, and a payload that a log record can hold reads as the mutation set
    it was written for; in any other, writing and reading are refused with that version.  The
    versions are those of the formats that were registered, and the current one stays that of the
    first. -/
theorem round_trip {current : Format} {more : List Format}
    (h : ∀ f ∈ current :: more, f = .fixedWidth ∨ f = .messagePack) :
    (ofFormats current more).current = current.version
    ∧ current.version ∈ (ofFormats current more).versions
    ∧ ∀ v, (v ∈ (ofFormats current more).versions ↔ ∃ f ∈ current :: more, f.version = v)
      ∧ (v ∈ (ofFormats current more).versions →
        ∀ ms, ∃ payload, (ofFormats current more).encode v ms = .ok payload
          ∧ (payload.length ≤ Record.maxFramed →
            (ofFormats current more).decode v payload = .ok ms))
      ∧ (v ∉ (ofFormats current more).versions →
        (∀ ms, (ofFormats current more).encode v ms = .error (.unsupportedVersion v))
        ∧ ∀ payload, (ofFormats current more).decode v payload
          = .error (.unsupportedVersion v)) := by
  have hformat := format?_ofFormats current more
  refine ⟨current_ofFormats current more, ?_, fun v => ⟨?_, fun hv => ?_, unsupported⟩⟩
  · have hcurrent := current_mem_versions (ofFormats current more)
    rwa [current_ofFormats] at hcurrent
  · rw [mem_versions_iff, hformat, ← Option.isSome_iff_exists, List.find?_isSome]
    simp only [List.mem_reverse, decide_eq_true_eq]
  · refine decode_of_encode hv fun f hf => ?_
    rw [hformat] at hf
    -- Whoever answers was registered at some time, so it is one of the two.
    rcases h f (List.mem_reverse.1 (List.mem_of_find?_eq_some hf)) with rfl | rfl
    · exact Format.roundTrips_fixedWidth
    · exact Format.roundTrips_messagePack

/-- Empty texts, text beyond ASCII and the bytes about the narrow marks come back through a registry
    that was begun with the old format and given the new one, and then the old one again. -/
theorem round_trip_both :
    let r := ofFormats .fixedWidth [.messagePack, .fixedWidth]
    let ms : List Mutation := [⟨⟨"", "täble"⟩, [0, 127, 128, 255],
      [.upsert "日本" "" [], .deleteCell "" "\t", .deletePartition]⟩, ⟨⟨"", ""⟩, [], []⟩]
    (∀ v ∈ r.versions, ∃ payload, r.encode v ms = .ok payload ∧ r.decode v payload = .ok ms)
    ∧ r.versions = [⟨1⟩, ⟨2⟩] ∧ r.current = ⟨1⟩
    ∧ r.encode ⟨3⟩ ms = .error (.unsupportedVersion ⟨3⟩)
    ∧ r.decode ⟨0⟩ [0] = .error (.unsupportedVersion ⟨0⟩) := by
  intro r ms
  have hversions : r.versions = [⟨1⟩, ⟨2⟩] := by decide
  have hformats : ∀ f ∈ [Format.fixedWidth, .messagePack, .fixedWidth],
      f = .fixedWidth ∨ f = .messagePack := by
    intro f hf
    simp only [List.mem_cons, List.not_mem_nil, or_false] at hf
    rcases hf with rfl | rfl | rfl
    · exact .inl rfl
    · exact .inr rfl
    · exact .inl rfl
  obtain ⟨hcurrent, -, hall⟩ := round_trip hformats
  refine ⟨fun v hv => ?_, hversions, hcurrent, ((hall ⟨3⟩).2.2 (by decide)).1 ms,
    ((hall ⟨0⟩).2.2 (by decide)).2 [0]⟩
  obtain ⟨payload, hencode, hdecode⟩ := (hall v).2.1 hv ms
  refine ⟨payload, hencode, hdecode ?_⟩
  have hv' : v = ⟨1⟩ ∨ v = ⟨2⟩ := by simpa [hversions] using hv
  -- The lengths are compared by computing them.
  rcases hv' with rfl | rfl
  · have hpayload : FixedWidth.encode ms = payload := Except.ok.inj hencode
    rw [← hpayload]
    decide +kernel
  · have hpayload : MutationSet.encode ms = payload := Except.ok.inj hencode
    rw [← hpayload]
    decide +kernel

end Registry

end BatchJournal
