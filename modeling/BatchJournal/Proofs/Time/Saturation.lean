import BatchJournal.Time.Timestamp

namespace BatchJournal

/-!
# Where timestamp arithmetic saturates

A timestamp holds 64 bits of microseconds, a duration up to 2⁶⁴ seconds.  Of a duration only the low
64 bits of its microseconds enter the arithmetic; the sum and the difference of these are then kept
between the epoch and the last timestamp.  So the arithmetic is that of the whole numbers, cut off
at both ends, for every duration of less than 2⁶⁴ microseconds, and for a longer one just if what
was left of it drives the timestamp to the end that it should have reached.

* `Duration.totalMicros_eq_div` — the microseconds of a duration, rounded down.
* `Timestamp.micros_after`, `Timestamp.micros_before` — what is added and taken away.
* `Timestamp.since_after` — the time since an earlier timestamp undoes an addition.
* `Timestamp.saturates_unless_truncated` — which durations are added and taken away as they are.
-/

namespace Duration

/-- The microseconds are the nanoseconds, rounded down: `totalNanos / 1000`. -/
theorem totalMicros_eq_div (d : Duration) : d.totalMicros = d.totalNanos / 1000 := by
  unfold totalMicros totalNanos
  omega

/-- A longer duration has at least as many microseconds: `totalMicros` is monotone. -/
theorem totalMicros_mono {d d' : Duration} (h : d ≤ d') : d.totalMicros ≤ d'.totalMicros := by
  rw [totalMicros_eq_div, totalMicros_eq_div]
  exact Nat.div_le_div_right h

/-- A number `n` of microseconds has `n * 1000` nanoseconds. -/
theorem totalNanos_ofMicros (n : UInt64) : (ofMicros n).totalNanos = n.toNat * 1000 := by
  have hseconds : (n / 1000000).toNat = n.toNat / 1000000 := by
    rw [UInt64.toNat_div]
    rfl
  simp only [totalNanos, ofMicros, hseconds, Fin.val_ofNat]
  omega

end Duration

namespace Timestamp

variable {t : Timestamp} {d d' : Duration}

theorem toNat_micros_lt (t : Timestamp) : t.micros.toNat < UInt64.size := t.micros.toNat_lt

theorem step_eq_of_lt (h : d.totalMicros < UInt64.size) : step d = d.totalMicros :=
  Nat.mod_eq_of_lt h

/-- The sum of a timestamp and `step d`, which is what enters of a duration, cut off at the last
    timestamp. -/
theorem micros_after (t : Timestamp) (d : Duration) :
    (t.after d).micros.toNat = min (UInt64.size - 1) (t.micros.toNat + step d) := by
  have hsize : UInt64.size = 18446744073709551616 := rfl
  rw [after, UInt64.toNat_ofNat_of_lt' (by omega), Nat.min_comm]

/-- Their difference, cut off at the epoch, as subtraction of naturals does. -/
theorem micros_before (t : Timestamp) (d : Duration) :
    (t.before d).micros.toNat = t.micros.toNat - step d := by
  have hlt := t.toNat_micros_lt
  rw [before, UInt64.toNat_ofNat_of_lt' (by omega)]

/-- Whatever the duration, adding it gives nothing earlier and taking it away nothing later:
    `t.before d ≤ t ≤ t.after d`. -/
theorem before_le_le_after (t : Timestamp) (d : Duration) : t.before d ≤ t ∧ t ≤ t.after d := by
  have hlt := t.toNat_micros_lt
  constructor
  · show (t.before d).micros.toNat ≤ t.micros.toNat
    rw [micros_before]
    omega
  · show t.micros.toNat ≤ (t.after d).micros.toNat
    rw [micros_after]
    omega

/-- A longer duration `d'` leads further, if none of its microseconds are lost: they are fewer than
    `UInt64.size`. -/
theorem after_mono_before_anti (h : d ≤ d') (hshort : d'.totalMicros < UInt64.size) :
    t.after d ≤ t.after d' ∧ t.before d' ≤ t.before d := by
  have hmicros := Duration.totalMicros_mono h
  have hstep : step d ≤ step d' := by
    rw [step_eq_of_lt hshort, step_eq_of_lt (by omega)]
    exact hmicros
  constructor
  · show (t.after d).micros.toNat ≤ (t.after d').micros.toNat
    rw [micros_after, micros_after]
    omega
  · show (t.before d').micros.toNat ≤ (t.before d).micros.toNat
    rw [micros_before, micros_before]
    omega

/-- **The time `since` an earlier timestamp undoes an addition** that stays within the last
    timestamp, but for the part of the duration below a microsecond. -/
theorem since_after (h : t.micros.toNat + d.totalMicros < UInt64.size) :
    ∃ elapsed, (t.after d).since t = some elapsed
      ∧ elapsed.totalNanos = d.totalNanos / 1000 * 1000 := by
  have hafter : (t.after d).micros.toNat = t.micros.toNat + d.totalMicros := by
    rw [micros_after, step_eq_of_lt (by omega)]
    omega
  have hle : t.micros ≤ (t.after d).micros := (before_le_le_after t d).2
  have hdifference : ((t.after d).micros - t.micros).toNat = d.totalMicros := by
    rw [UInt64.toNat_sub_of_le _ _ hle]
    omega
  refine ⟨.ofMicros ((t.after d).micros - t.micros), if_pos hle, ?_⟩
  rw [Duration.totalNanos_ofMicros, hdifference, Duration.totalMicros_eq_div]

/-- **Timestamp arithmetic saturates for what is left of a duration.**  Adding a duration gives the
    sum of the microseconds, or the last timestamp if that is less, exactly if the duration is
    shorter than 2⁶⁴ microseconds or the low 64 bits of its microseconds already reach the last
    timestamp; taking it away gives the difference, or the epoch, exactly if it is as short or these
    bits already reach back to the epoch.  Of durations that short a longer one leads further, and
    none leads the wrong way, however long it is.  If a sum is a timestamp, then the time from its
    beginning is the duration again, less the part below a microsecond. -/
theorem saturates_unless_truncated (t : Timestamp) :
    (∀ d, (t.after d).micros.toNat = min (UInt64.size - 1) (t.micros.toNat + d.totalMicros)
      ↔ d.totalMicros < UInt64.size
        ∨ UInt64.size - 1 ≤ t.micros.toNat + d.totalMicros % UInt64.size)
    ∧ (∀ d, (t.before d).micros.toNat = t.micros.toNat - d.totalMicros
      ↔ d.totalMicros < UInt64.size ∨ t.micros.toNat ≤ d.totalMicros % UInt64.size)
    ∧ (∀ d d', d ≤ d' → d'.totalMicros < UInt64.size →
      t.after d ≤ t.after d' ∧ t.before d' ≤ t.before d)
    ∧ (∀ d, t.before d ≤ t ∧ t ≤ t.after d)
    ∧ ∀ d, t.micros.toNat + d.totalMicros < UInt64.size →
      ∃ elapsed, (t.after d).since t = some elapsed
        ∧ elapsed.totalNanos = d.totalNanos / 1000 * 1000 := by
  have hlt := t.toNat_micros_lt
  refine ⟨fun d => ?_, fun d => ?_, fun _ _ => after_mono_before_anti, before_le_le_after t,
    fun _ => since_after⟩
  · rw [micros_after]
    by_cases hshort : d.totalMicros < UInt64.size
    · simp only [step_eq_of_lt hshort, hshort, true_or]
    · -- The whole duration leads beyond the last timestamp, so its low bits have to as well.
      unfold step
      omega
  · rw [micros_before]
    by_cases hshort : d.totalMicros < UInt64.size
    · simp only [step_eq_of_lt hshort, hshort, true_or]
    · unfold step
      omega

/-- The longest duration that is not truncated leads to either end, and the part of one below a
    microsecond is lost on the way to the last timestamp and back. -/
theorem saturates_unless_truncated_longest :
    let t : Timestamp := ⟨18446744073708551615⟩
    let d : Duration := ⟨1, 999⟩
    let longest : Duration := ⟨18446744073709, 551615999⟩
    d ≤ longest ∧ longest.totalMicros < UInt64.size
      ∧ t.after d ≤ t.after longest ∧ t.before longest ≤ t.before d
      ∧ t.after d = last ∧ t.before longest = epoch
      ∧ ∃ elapsed, last.since t = some elapsed ∧ elapsed.totalNanos = 1000000000 := by
  intro t d longest
  have hle : d ≤ longest := by decide
  have hshort : longest.totalMicros < UInt64.size := by decide +kernel
  obtain ⟨-, -, hmono, -, hundo⟩ := saturates_unless_truncated t
  have hlast : t.after d = last := by decide +kernel
  have hwhole : d.totalNanos / 1000 * 1000 = 1000000000 := by decide +kernel
  obtain ⟨elapsed, hsince, hnanos⟩ := hundo d (by decide +kernel)
  rw [hlast] at hsince
  obtain ⟨hafter, hbefore⟩ := hmono d longest hle hshort
  exact ⟨hle, hshort, hafter, hbefore, hlast, by decide +kernel, elapsed, hsince,
    hnanos.trans hwhole⟩

/-- **Some durations vanish:** `2 ^ 64` microseconds lead neither on nor back, where a single one
    does both. -/
theorem vanishing_duration :
    let t : Timestamp := ⟨10⟩
    let d : Duration := ⟨18446744073709, 551616000⟩
    t.after d = t ∧ (t.after d).micros.toNat ≠ min (UInt64.size - 1) (t.micros.toNat + d.totalMicros)
      ∧ t.before d = t ∧ (t.before d).micros.toNat ≠ t.micros.toNat - d.totalMicros
      ∧ ⟨0, 1000⟩ ≤ d ∧ ¬ t.after ⟨0, 1000⟩ ≤ t.after d ∧ ¬ t.before d ≤ t.before ⟨0, 1000⟩ := by
  decide +kernel

end Timestamp

end BatchJournal
