import BatchJournal.Proofs.Log.Indexing
import BatchJournal.Replay.Report
import Mathlib.Algebra.Order.Ring.Nat
import Mathlib.Data.List.Induction
import Mathlib.Data.List.Nodup

namespace BatchJournal

/-!
# Reports from what has happened

The report of a pass and the totals of a journal are numbers that were counted up one by one.  Here
they are given in closed form: for the visits of a pass with what became of each, and for the
reports of a journal.

* `Report.of` — the report that is due for a list of visits.
* `Report.of_concat`, `Report.of_dropping` — what one visit and one mutation left out add to it.
* `Report.scanned_of`, `Report.retained_of` — its sums.
* `Counters.total` — the totals that are due for a list of reports.
* `Entries.minus` — what is left of a store when entries are taken away.
-/

/-! ### Visits -/

/-- What becomes of an entry that a pass visits. -/
inductive Verdict where
  /-- It is not `eligible`: too young, or from the future. -/
  | tooYoung
  /-- `decode` fails on its payload. -/
  | undecodable
  /-- Not all of it was applied. -/
  | failed
  /-- It was applied, and the store did not delete it. -/
  | undeleted
  /-- It was applied and deleted. -/
  | replayed
deriving DecidableEq

/-- The entry was old enough and is still there: it counts in `Report.retained`. -/
def Verdict.retains : Verdict → Bool
  | .undecodable | .failed | .undeleted => true
  | .tooYoung | .replayed => false

/-- The visit of an entry, at its end. -/
structure Visit where
  /-- The entry. -/
  entry : Entry
  /-- What became of it. -/
  verdict : Verdict

/-- A look at the clock for an entry. -/
structure Reading where
  /-- The entry. -/
  entry : Entry
  /-- What the clock said. -/
  now : Timestamp

/-- The entries whose verdict is `replayed`, in order. -/
def replayedEntries (visits : List Visit) : List Entry :=
  (visits.filter fun v => v.verdict = .replayed).map Visit.entry

theorem replayedEntries_concat (visits : List Visit) (e : Entry) (verdict : Verdict) :
    replayedEntries (visits ++ [⟨e, verdict⟩])
      = replayedEntries visits ++ if verdict = .replayed then [e] else [] := by
  by_cases h : verdict = .replayed <;> simp [replayedEntries, List.filter_append, h]

theorem mem_of_mem_replayedEntries {visits : List Visit} {e : Entry}
    (h : e ∈ replayedEntries visits) : e ∈ visits.map Visit.entry :=
  (List.filter_sublist.map Visit.entry).subset h

/-! ### Reports and totals -/

namespace Report

/-- **The report that is due** for these visits, if `droppings` has the entry of each mutation that
    was left out. -/
def of (pass : Nat) (visits : List Visit) (droppings : List Entry) : Report where
  pass
  scanned := visits.length
  notYetEligible := visits.countP fun v => v.verdict = .tooYoung
  replayed := visits.countP fun v => v.verdict = .replayed
  decodeFailures := visits.countP fun v => v.verdict = .undecodable
  applyFailures := visits.countP fun v => v.verdict = .failed
  deleteFailures := visits.countP fun v => v.verdict = .undeleted
  truncatedSkipped := ((replayedEntries visits).map fun e => droppings.count e).sum
  bytesReplayed := ((replayedEntries visits).map fun e => e.payload.length).sum

/-- The report with one more entry visited, `dropped` of whose mutations were left out. -/
def note (r : Report) (e : Entry) (dropped : Nat) : Verdict → Report
  | .tooYoung => { r with scanned := r.scanned + 1, notYetEligible := r.notYetEligible + 1 }
  | .undecodable => { r with scanned := r.scanned + 1, decodeFailures := r.decodeFailures + 1 }
  | .failed => { r with scanned := r.scanned + 1, applyFailures := r.applyFailures + 1 }
  | .undeleted => { r with scanned := r.scanned + 1, deleteFailures := r.deleteFailures + 1 }
  | .replayed =>
    { r with
      scanned := r.scanned + 1
      replayed := r.replayed + 1
      truncatedSkipped := r.truncatedSkipped + dropped
      bytesReplayed := r.bytesReplayed + e.payload.length }

variable {pass : Nat} {visits : List Visit} {droppings : List Entry} {e : Entry}

/-- Only for a replayed entry `note` counts what was left out. -/
theorem note_congr (r : Report) {verdict : Verdict} {n n' : Nat} (h : verdict = .replayed → n = n') :
    r.note e n verdict = r.note e n' verdict := by
  cases verdict with
  | replayed => rw [h rfl]
  | _ => rfl

/-- **One more visit** is noted by `note`. -/
theorem of_concat (verdict : Verdict) :
    of pass (visits ++ [⟨e, verdict⟩]) droppings
      = (of pass visits droppings).note e (droppings.count e) verdict := by
  cases verdict <;> simp [of, note, replayedEntries_concat, List.countP_append]

/-- **A mutation left out** of `e` counts for nothing before `e` is replayed. -/
theorem of_dropping (h : e ∉ replayedEntries visits) :
    of pass visits (droppings ++ [e]) = of pass visits droppings := by
  have hcounts : (replayedEntries visits).map (fun e' => (droppings ++ [e]).count e')
      = (replayedEntries visits).map fun e' => droppings.count e' := by
    refine List.map_congr_left fun e' he' => ?_
    have hne : e ≠ e' := fun heq => h (heq ▸ he')
    rw [List.count_append, List.count_singleton, if_neg (by simpa using hne)]
    omega
  simp only [of, hcounts]

/-- **Each entry counts once** among the outcomes: `scanned` is the sum of the five numbers. -/
theorem scanned_of (pass : Nat) (visits : List Visit) (droppings : List Entry) :
    (of pass visits droppings).scanned
      = (of pass visits droppings).notYetEligible + (of pass visits droppings).decodeFailures
        + (of pass visits droppings).applyFailures + (of pass visits droppings).deleteFailures
        + (of pass visits droppings).replayed := by
  induction visits using List.reverseRecOn with
  | nil => rfl
  | append_singleton visits v ih =>
    obtain ⟨e, verdict⟩ := v
    rw [of_concat]
    cases verdict <;> (simp only [note]; omega)

/-- `retained` counts the three failures. -/
theorem retained_of (pass : Nat) (visits : List Visit) (droppings : List Entry) :
    (of pass visits droppings).retained = visits.countP fun v => v.verdict.retains := by
  induction visits using List.reverseRecOn with
  | nil => rfl
  | append_singleton visits v ih =>
    obtain ⟨e, verdict⟩ := v
    rw [of_concat, List.countP_append, ← ih, List.countP_singleton]
    cases verdict with
    | tooYoung | replayed => rfl
    | undecodable | failed | undeleted =>
      show _ = (of pass visits droppings).retained + 1
      simp only [retained, note]
      omega

end Report

/-- **The totals that are due** for these `reports`, after `seen` submissions. -/
def Counters.total (seen : Nat) (reports : List Report) : Counters where
  seen
  replayed := (reports.map Report.replayed).sum
  passes := reports.length
  decodeFailures := (reports.map Report.decodeFailures).sum
  applyFailures := (reports.map Report.applyFailures).sum
  truncatedSkipped := (reports.map Report.truncatedSkipped).sum

/-- The totals with the numbers of a pass that is not over. -/
def Counters.plus (c : Counters) (r : Report) : Counters :=
  { c with
    replayed := c.replayed + r.replayed
    decodeFailures := c.decodeFailures + r.decodeFailures
    applyFailures := c.applyFailures + r.applyFailures
    truncatedSkipped := c.truncatedSkipped + r.truncatedSkipped }

theorem Counters.total_concat (seen : Nat) (reports : List Report) (r : Report) :
    total seen (reports ++ [r])
      = { (total seen reports).plus r with passes := reports.length + 1 } := by
  simp [total, plus]

/-! ### Entries taken away -/

namespace Entries

/-- `es` without the entries of `gone`. -/
def minus (es : Entries) (gone : List Entry) : Entries := gone.foldl (fun es e => es.delete e.id) es

theorem minus_append (es : Entries) (gone gone' : List Entry) :
    es.minus (gone ++ gone') = (es.minus gone).minus gone' := List.foldl_append

/-- **What is left** under `id` is what was there, but for the ids taken away. -/
theorem get?_minus (es : Entries) (gone : List Entry) (id : BatchId) :
    (es.minus gone).get? id = if id ∈ gone.map Entry.id then none else es.get? id := by
  induction gone using List.reverseRecOn with
  | nil => rfl
  | append_singleton gone e ih =>
    rw [minus_append]
    show ((es.minus gone).delete e.id).get? id = _
    rw [get?_delete, ih]
    by_cases hid : id = e.id <;> by_cases hgone : id ∈ gone.map Entry.id <;> simp_all

/-- `ids` are those of the entries in `toList`. -/
theorem ids_eq (es : Entries) : es.ids = es.toList.map Entry.id := by
  rw [ids, toList, OrderedMap.keys, OrderedMap.values, List.map_map]
  refine List.map_congr_left fun b hb => ?_
  exact (es.keyed b.1 b.2 (OrderedMap.get?_eq_some_iff.2 hb)).symm

/-- **No two entries of `toList`** have an id in common. -/
theorem nodup_ids (es : Entries) : (es.toList.map Entry.id).Nodup := by
  refine List.Pairwise.map Entry.id ?_ (sorted_toList es)
  intro a b hlt heq
  rw [heq] at hlt
  exact KeyOrder.irrefl _ hlt

/-- What stands later in `toList` has another id than what stands before. -/
theorem id_not_mem {es : Entries} {earlier later : List Entry} {e : Entry}
    (h : es.toList = earlier ++ later) (he : e ∈ later) : e.id ∉ earlier.map Entry.id := by
  intro hmem
  have hnodup := nodup_ids es
  rw [h, List.map_append] at hnodup
  exact (List.nodup_append.1 hnodup).2.2 _ hmem _ (List.mem_map_of_mem he) rfl

/-- **What stays** of the entries that were visited is what was not `replayed`. -/
theorem contains_minus {es : Entries} {visits : List Visit}
    (hvisited : visits.map Visit.entry = es.toList) {v : Visit} (hv : v ∈ visits) :
    (es.minus (replayedEntries visits)).contains v.entry.id = !decide (v.verdict = .replayed) := by
  have hstored : es.get? v.entry.id = some v.entry :=
    mem_toList_iff.1 (hvisited ▸ List.mem_map_of_mem hv)
  have hgone : v.entry.id ∈ (replayedEntries visits).map Entry.id ↔ v.verdict = .replayed := by
    constructor
    · intro hmem
      obtain ⟨e, he, hid⟩ := List.mem_map.1 hmem
      obtain ⟨w, hw, rfl⟩ := List.mem_map.1 he
      obtain ⟨hw, hreplayed⟩ := List.mem_filter.1 hw
      -- No id is visited twice, so the two visits are one.
      have hdistinct := nodup_ids es
      rw [← hvisited, List.map_map] at hdistinct
      obtain rfl := List.inj_on_of_nodup_map hdistinct hw hv hid
      exact of_decide_eq_true hreplayed
    · intro hreplayed
      refine List.mem_map_of_mem (List.mem_map_of_mem (List.mem_filter.2 ⟨hv, ?_⟩))
      exact decide_eq_true hreplayed
  rw [contains, get?_minus, hstored]
  by_cases hreplayed : v.verdict = .replayed
  · rw [if_pos (hgone.2 hreplayed), decide_eq_true hreplayed]
    rfl
  · rw [if_neg (fun hmem => hreplayed (hgone.1 hmem)), decide_eq_false hreplayed]
    rfl

end Entries

end BatchJournal
