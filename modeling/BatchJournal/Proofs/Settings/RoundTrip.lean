import BatchJournal.Proofs.Toml.Documents
import BatchJournal.Settings.File

namespace BatchJournal

/-!
# Settings files give the settings back

The written form of settings has one row for each field, so it is read as a table of these rows, and
every field finds its own row in it.  One thing is lost on the way: a NaN comes back without its
payload, and since no comparison sees the payload, validation says the same of it.

* `Settings.text_eq` — what is written, and `Settings.text_none` when nothing is.
* `Settings.ofText_text` — what is written is understood.
* `SettingsFile.files_round_trip` — **settings files round-trip.**
-/

namespace Settings

open Toml (Row unmarked)

/-! ### The rows of settings -/

/-- The whole numbers among the settings. -/
def counts (s : Settings) : List UInt64 :=
  [s.replayTimeout, s.replayInterval, s.applyTimeout, s.throttleKib, s.workers, s.queueDepth,
    s.syncInterval, s.minGarbage]

/-- The row of a whole number. -/
def countRow (name : String) (n : UInt64) : Row := ⟨name, toString n.toNat, .integer n.toNat⟩

/-- The rows of a settings file. -/
def rows (s : Settings) : List Row :=
  [countRow "replay_timeout_ms" s.replayTimeout,
    countRow "replay_interval_ms" s.replayInterval,
    countRow "apply_timeout_ms" s.applyTimeout,
    countRow "replay_throttle_kib" s.throttleKib,
    countRow "apply_workers" s.workers,
    countRow "apply_queue_depth" s.queueDepth,
    ⟨"sync", Toml.quote s.sync, .text s.sync⟩,
    countRow "sync_interval_ms" s.syncInterval,
    countRow "compaction_min_garbage" s.minGarbage,
    ⟨"compaction_garbage_ratio", Notation.saved.text s.garbageRatio,
      .float (unmarked s.garbageRatio)⟩]

/-- The keys of a settings file. -/
def keys : List String :=
  ["replay_timeout_ms", "replay_interval_ms", "apply_timeout_ms", "replay_throttle_kib",
    "apply_workers", "apply_queue_depth", "sync", "sync_interval_ms", "compaction_min_garbage",
    "compaction_garbage_ratio"]

theorem bare_keys : ∀ name ∈ keys, name.toList ≠ [] ∧ ∀ c ∈ name.toList, Toml.bare c = true := by
  have h : keys.all (fun name => !name.toList.isEmpty && name.toList.all Toml.bare) = true := by
    decide
  intro name hname
  simpa using List.all_eq_true.1 h name hname

theorem nodup_rows (s : Settings) : (s.rows.map Row.name).Nodup :=
  (by decide : keys.Nodup)

theorem line_eq (r : Row) : (line r.name r.text).toList = r.chars := by
  simp [line, Row.chars]

theorem countText_some {n : UInt64} (h : n < 0x8000000000000000) :
    countText n = some (toString n.toNat) := if_pos h

theorem countText_none {n : UInt64} (h : ¬ n < 0x8000000000000000) : countText n = none := if_neg h

/-- **What is written:** the lines of `rows`, if every number fits into 63 bits. -/
theorem text_eq {s : Settings} (h : ∀ n ∈ s.counts, n < 0x8000000000000000) :
    s.text = some (String.ofList (s.rows.flatMap Row.chars)) := by
  have hlines : String.join (s.rows.map fun r => line r.name r.text)
      = String.ofList (s.rows.flatMap Row.chars) := by
    rw [← String.toList_inj, String.toList_join, String.toList_ofList, List.flatMap_map]
    simp only [line_eq]
  simp only [counts, List.forall_mem_cons] at h
  obtain ⟨h₁, h₂, h₃, h₄, h₅, h₆, h₇, h₈, -⟩ := h
  rw [← hlines]
  simp only [text, countText_some h₁, countText_some h₂, countText_some h₃, countText_some h₄,
    countText_some h₅, countText_some h₆, countText_some h₇, countText_some h₈]
  rfl

/-- **Nothing is written** if a number does not fit into 63 bits. -/
theorem text_none {s : Settings} {n : UInt64} (hn : n ∈ s.counts)
    (h : ¬ n < 0x8000000000000000) : s.text = none := by
  have hnone := countText_none h
  simp only [counts, List.mem_cons, List.not_mem_nil, or_false] at hn
  rw [text]
  -- Whichever number it is, the writer gives up when it comes to it.
  rcases hn with rfl | rfl | rfl | rfl | rfl | rfl | rfl | rfl
  all_goals
    rw [hnone]
    simp only [Option.bind_eq_bind, Option.bind_none, Option.bind_fun_none]

/-! ### Reading the rows -/

theorem reads_countRow {name : String} (hname : name ∈ keys) {n : UInt64}
    (h : n < 0x8000000000000000) : (countRow name n).Reads := by
  refine ⟨(bare_keys name hname).1, (bare_keys name hname).2, fun s => ?_⟩
  have hlt : n.toNat < 0x8000000000000000 := UInt64.lt_iff_toNat_lt.1 h
  show Toml.scalar (n.toNat.repr.toList ++ '\n' :: s) = _
  rw [Nat.toList_repr]
  exact Toml.scalar_count hlt s

/-- **Every row of `rows` is read as its value.** -/
theorem reads_rows {s : Settings} (h : ∀ n ∈ s.counts, n < 0x8000000000000000) :
    ∀ r ∈ s.rows, r.Reads := by
  simp only [counts, List.forall_mem_cons] at h
  obtain ⟨h₁, h₂, h₃, h₄, h₅, h₆, h₇, h₈, -⟩ := h
  obtain ⟨hne, hbare⟩ := bare_keys "sync" (by decide)
  have hsync : Row.Reads ⟨"sync", Toml.quote s.sync, .text s.sync⟩ :=
    ⟨hne, hbare, Toml.scalar_quote s.sync⟩
  obtain ⟨hne', hbare'⟩ := bare_keys "compaction_garbage_ratio" (by decide)
  have hratio : Row.Reads ⟨"compaction_garbage_ratio", Notation.saved.text s.garbageRatio,
      .float (unmarked s.garbageRatio)⟩ :=
    ⟨hne', hbare', Toml.scalar_saved s.garbageRatio⟩
  simp only [rows, List.forall_mem_cons]
  exact ⟨reads_countRow (by decide) h₁, reads_countRow (by decide) h₂,
    reads_countRow (by decide) h₃, reads_countRow (by decide) h₄, reads_countRow (by decide) h₅,
    reads_countRow (by decide) h₆, hsync, reads_countRow (by decide) h₇,
    reads_countRow (by decide) h₈, hratio, List.forall_mem_nil _⟩

/-- `fieldOr` finds the row of its name. -/
theorem fieldOr_row {α : Type} {rows : List Row} (hnodup : (rows.map Row.name).Nodup) {r : Row}
    (hr : r ∈ rows) (default : α) (read : Toml.Value → Option α) :
    fieldOr (.mk true false (rows.map fun r => (r.name, .value r.value))) r.name default read
      = read r.value := by
  have hfind : Toml.Table.find? (.mk true false (rows.map fun r => (r.name, .value r.value)))
      r.name = some (.value r.value) := by
    rw [Toml.Table.find?, Toml.Table.items]
    -- The rows before the one that is sought have other names.
    induction rows with
    | nil => exact absurd hr List.not_mem_nil
    | cons first rows ih =>
      rw [List.map_cons, List.nodup_cons] at hnodup
      rw [List.map_cons, List.find?_cons]
      rcases List.mem_cons.1 hr with rfl | hr
      · rw [decide_eq_true rfl]
        rfl
      · have hne : first.name ≠ r.name := fun heq =>
          hnodup.1 (heq ▸ List.mem_map_of_mem hr)
        rw [decide_eq_false hne]
        exact ih hnodup.2 hr
  rw [fieldOr, hfind]

theorem readCount_toNat (n : UInt64) : readCount (.integer n.toNat) = some n := by
  rw [readCount, if_pos (Int.natCast_nonneg _), Int.toNat_natCast, UInt64.ofNat_toNat]

/-- The settings with what is left of `garbageRatio` in a file. -/
def restored (s : Settings) : Settings := { s with garbageRatio := unmarked s.garbageRatio }

/-- **`ofTable` gives the settings back** from the table of `rows`. -/
theorem ofTable_rows (s : Settings) :
    ofTable (.mk true false (s.rows.map fun r => (r.name, .value r.value))) = some s.restored := by
  -- Each count stands in a row of its own, and no other row has its name.
  have hcount : ∀ name n default, countRow name n ∈ s.rows →
      fieldOr (.mk true false (s.rows.map fun r => (r.name, .value r.value))) name default readCount
        = some n := fun name n default hr =>
    (fieldOr_row s.nodup_rows hr default readCount).trans (readCount_toNat n)
  have hsync := @fieldOr_row _ s.rows s.nodup_rows ⟨"sync", Toml.quote s.sync, .text s.sync⟩
    (by simp [rows]) standard.sync readText
  have hratio := @fieldOr_row _ s.rows s.nodup_rows ⟨"compaction_garbage_ratio",
    Notation.saved.text s.garbageRatio, .float (unmarked s.garbageRatio)⟩ (by simp [rows])
    standard.garbageRatio readNumber
  rw [ofTable, hcount "replay_timeout_ms" s.replayTimeout _ (by simp [rows]),
    hcount "replay_interval_ms" s.replayInterval _ (by simp [rows]),
    hcount "apply_timeout_ms" s.applyTimeout _ (by simp [rows]),
    hcount "replay_throttle_kib" s.throttleKib _ (by simp [rows]),
    hcount "apply_workers" s.workers _ (by simp [rows]),
    hcount "apply_queue_depth" s.queueDepth _ (by simp [rows]), hsync,
    hcount "sync_interval_ms" s.syncInterval _ (by simp [rows]),
    hcount "compaction_min_garbage" s.minGarbage _ (by simp [rows]), hratio]
  rfl

/-- **What is written is understood,** and `ofText` gives the settings back. -/
theorem ofText_text {s : Settings} (h : ∀ n ∈ s.counts, n < 0x8000000000000000) {text : String}
    (htext : s.text = some text) : ofText text = some s.restored := by
  rw [text_eq h] at htext
  obtain rfl := Option.some.inj htext
  rw [ofText, Toml.parse_rows (reads_rows h) s.nodup_rows]
  exact ofTable_rows s

/-! ### Validation -/

/-- `validate` refuses settings as `invalid` or not at all. -/
theorem invalid_of_validate {s : Settings} {e : SettingsError} (h : s.validate = .error e) :
    ∃ reason, e = .invalid reason := by
  have hmode : ∀ {e}, s.syncMode = .error e → ∃ reason, e = .invalid reason := by
    intro e he
    rw [syncMode] at he
    split at he
    · exact nomatch he
    · next reason _ => exact ⟨reason, (Except.error.inj he).symm⟩
  -- One case for each check, the last of them that of the sync mode.
  rw [validate] at h
  split_ifs at h
  · exact ⟨_, (Except.error.inj h).symm⟩
  · exact ⟨_, (Except.error.inj h).symm⟩
  · exact ⟨_, (Except.error.inj h).symm⟩
  · exact ⟨_, (Except.error.inj h).symm⟩
  · exact ⟨_, (Except.error.inj h).symm⟩
  · split at h
    · next he =>
      obtain rfl := Except.error.inj h
      exact hmode he
    · exact nomatch h

/-- A NaN lies in no range. -/
theorem ratioInRange_nan {s : Settings} (h : s.garbageRatio.isNaN = true) :
    s.ratioInRange = false := by
  rw [ratioInRange, Binary64.lt, h, Bool.not_true, Bool.and_false, Bool.false_and, Bool.false_and]

/-- The ratio of valid settings is a number, so nothing of it is lost. -/
theorem restored_of_validate {s : Settings} (h : s.validate = .ok ()) : s.restored = s := by
  have hratio : ¬ s.garbageRatio.isNaN = true := by
    intro hnan
    simp only [validate, ratioInRange_nan hnan, Bool.not_false, if_true] at h
    split_ifs at h
  rw [restored, unmarked, if_neg hratio]

/-- **`validate` does not see the payload of a NaN.** -/
theorem validate_restored (s : Settings) : s.restored.validate = s.validate := by
  -- Validation sees the ratio through comparisons, and through its text where it is at fault.
  by_cases hnan : s.garbageRatio.isNaN = true
  · have hnan' : s.restored.garbageRatio.isNaN = true := by
      rw [restored, unmarked, if_pos hnan]
      exact (by decide : Binary64.nan.isNaN = true)
    have htext : ∀ {x : Binary64}, x.isNaN = true → Notation.plain.text x = "NaN" := fun hx => by
      rw [Notation.text, Binary64.isNaN_iff_value.1 hx]
      rfl
    rw [validate, validate, ratioInRange_nan hnan, ratioInRange_nan hnan', htext hnan, htext hnan']
    rfl
  · rw [restored, unmarked, if_neg hnan]

end Settings

namespace SettingsFile

/-- A file can be written at the path. -/
def writable : SettingsFile → Bool
  | .missing | .file _ => true
  | .directory | .unreachable => false

variable {f : SettingsFile} {path : String} {s : Settings}

theorem save_unwritable (h : s.text = none) :
    f.save path s = (.error (.unwritable "a number is out of range"), f) := by
  rw [save, h]

/-- Settings that have a text are saved, or the path is not `writable`. -/
theorem save_text {text : String} (h : s.text = some text) : f.save path s
    = if f.writable then (.ok (), .file (Utf8.encode text))
      else (.error (.io path "not writable"), f) := by
  rw [save, h]
  cases f <;> rfl

/-- **A failed `save` leaves the path as it was.** -/
theorem save_failed {e : SettingsError} (h : (f.save path s).1 = .error e) :
    (f.save path s).2 = f := by
  cases htext : s.text with
  | none => rw [save_unwritable htext]
  | some text =>
    rw [save_text htext] at h ⊢
    split_ifs at h ⊢
    rfl

/-- **`load` validates.** -/
theorem validate_of_load (h : f.load path = .ok s) : s.validate = .ok () := by
  rw [load] at h
  split at h
  · exact nomatch h
  · split at h
    · exact nomatch h
    · split at h
      · exact nomatch h
      · next hvalid =>
        obtain rfl := Except.ok.inj h
        exact hvalid

/-- **What was saved is loaded** if it is valid, and refused with the fault that it has if not. -/
theorem load_saved (h : ∀ n ∈ s.counts, n < 0x8000000000000000) {text : String}
    (htext : s.text = some text) (path : String) :
    (s.validate = .ok () → (SettingsFile.file (Utf8.encode text)).load path = .ok s)
      ∧ ∀ e, s.validate = .error e →
        (SettingsFile.file (Utf8.encode text)).load path = .error e := by
  have hread : (SettingsFile.file (Utf8.encode text)).read = some text := Utf8.decode?_encode text
  have hvalidate := s.validate_restored
  constructor
  · intro hvalid
    rw [hvalid] at hvalidate
    simp only [load, hread, Settings.ofText_text h htext, hvalidate]
    rw [Settings.restored_of_validate hvalid]
  · intro e hinvalid
    rw [hinvalid] at hvalidate
    simp only [load, hread, Settings.ofText_text h htext, hvalidate]

/-- **Settings files round-trip.**  Settings are unwritable exactly when one of `Settings.counts`
    exceeds 63 bits, and whatever was not saved leaves the path as it was; otherwise a file stands
    there that gives the settings back if they are valid, and that is refused as invalid if not.
    And no file gives settings that are not valid. -/
theorem files_round_trip (f : SettingsFile) (path : String) (s : Settings) :
    ((∃ detail, (f.save path s).1 = .error (.unwritable detail))
        ↔ ∃ n ∈ s.counts, 0x8000000000000000 ≤ n)
      ∧ (∀ e, (f.save path s).1 = .error e → (f.save path s).2 = f)
      ∧ (f.writable = true → (∀ n ∈ s.counts, n < 0x8000000000000000) →
        ∃ bytes, f.save path s = (.ok (), .file bytes)
          ∧ (s.validate = .ok () → (SettingsFile.file bytes).load path = .ok s)
          ∧ (s.validate ≠ .ok () →
            ∃ reason, (SettingsFile.file bytes).load path = .error (.invalid reason)))
      ∧ ∀ (g : SettingsFile) (path : String) (loaded : Settings), g.load path = .ok loaded →
        loaded.validate = .ok () := by
  -- Refused exactly beyond 63 bits; the file stays; what was saved reads back; what loads is valid.
  refine ⟨⟨?_, ?_⟩, fun e => save_failed, ?_, fun g path loaded => validate_of_load⟩
  · rintro ⟨detail, hsave⟩
    by_contra hfits
    have h : ∀ n ∈ s.counts, n < 0x8000000000000000 := fun n hn =>
      UInt64.not_le.1 fun hle => hfits ⟨n, hn, hle⟩
    rw [save_text (Settings.text_eq h)] at hsave
    split_ifs at hsave
    exact nomatch hsave
  · rintro ⟨n, hn, hle⟩
    exact ⟨_, congrArg Prod.fst (save_unwritable (Settings.text_none hn (UInt64.not_lt.2 hle)))⟩
  · intro hwritable h
    have htext := Settings.text_eq h
    obtain ⟨hvalid, hinvalid⟩ := load_saved h htext path
    refine ⟨_, (save_text htext).trans (if_pos hwritable), hvalid, fun hne => ?_⟩
    cases hfault : s.validate with
    | ok _ => exact absurd hfault hne
    | error e =>
      obtain ⟨reason, rfl⟩ := Settings.invalid_of_validate hfault
      exact ⟨reason, hinvalid _ hfault⟩

/-- Valid settings with a ratio that is no dyadic fraction, the same with the name of no sync mode,
    and the same with a number of 64 bits. -/
theorem files_round_trip_at :
    let valid : Settings := { Settings.standard with
      replayTimeout := 0x7FFFFFFFFFFFFFFF, garbageRatio := ⟨0x3FB999999999999A⟩ }
    let unnamed := { valid with sync := "it's \"\"\"\nnone\x01" }
    let large := { valid with minGarbage := 0x8000000000000000 }
    (∃ bytes, SettingsFile.missing.save "path" valid = (.ok (), .file bytes)
        ∧ (SettingsFile.file bytes).load "path" = .ok valid)
      ∧ (∃ bytes reason, (SettingsFile.file [1]).save "path" unnamed = (.ok (), .file bytes)
        ∧ (SettingsFile.file bytes).load "path" = .error (.invalid reason))
      ∧ (∃ detail, ((SettingsFile.file [1]).save "path" large).1 = .error (.unwritable detail))
      ∧ ((SettingsFile.file [1]).save "path" large).2 = .file [1] := by
  intro valid unnamed large
  -- Valid settings, settings whose sync mode has no name, and a count beyond 63 bits.
  have hvalid : valid.validate = .ok () := by decide +kernel
  have hunnamed : unnamed.validate ≠ .ok () := by decide +kernel
  have hfits : ∀ n ∈ valid.counts, n < 0x8000000000000000 := by
    simp only [Settings.counts, List.forall_mem_cons]
    exact ⟨by decide, by decide, by decide, by decide, by decide, by decide, by decide, by decide,
      List.forall_mem_nil _⟩
  obtain ⟨bytes, hsave, hload, -⟩ := (files_round_trip .missing "path" valid).2.2.1 rfl hfits
  obtain ⟨bytes', hsave', -, hload'⟩ :=
    (files_round_trip (.file [1]) "path" unnamed).2.2.1 rfl hfits
  obtain ⟨detail, hlarge⟩ :=
    (files_round_trip (.file [1]) "path" large).1.2 ⟨0x8000000000000000, by decide, by decide⟩
  obtain ⟨reason, hload'⟩ := hload' hunnamed
  exact ⟨⟨bytes, hsave, hload hvalid⟩, ⟨bytes', reason, hsave', hload'⟩, ⟨detail, hlarge⟩,
    (files_round_trip (.file [1]) "path" large).2.1 _ hlarge⟩

end SettingsFile

end BatchJournal
