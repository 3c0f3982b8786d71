import BatchJournal.Replica.Partition
import Mathlib.Data.List.Induction

namespace BatchJournal

/-!
# Which cell stays

Cells are ordered by time; at one time a value is below a deletion, and values are in byte order.
The order is strict and total, and a cell takes the place of another exactly if it is above it.  So
a partition keeps, for each slot, the greatest of the cells that ever arrived there, and as the time
of its deletion the latest of all.

* `Cell.supersedes_iff` — to supersede is to be above.
* `Partition.get?_cells_after` — the cell kept at a slot is the greatest one.
* `Partition.visible_after` — what it takes for a cell to be visible.
-/

instance : KeyOrder Timestamp where
  irrefl a := UInt64.lt_irrefl a.micros
  trans := UInt64.lt_trans
  total {a b} h h' := by
    obtain ⟨a⟩ := a
    obtain ⟨b⟩ := b
    congr 1
    exact UInt64.le_antisymm (UInt64.not_lt.1 h') (UInt64.not_lt.1 h)

namespace Timestamp

theorem le_refl (a : Timestamp) : a ≤ a := UInt64.le_refl _

theorem le_trans {a b c : Timestamp} (h : a ≤ b) (h' : b ≤ c) : a ≤ c := UInt64.le_trans h h'

theorem lt_of_not_le {a b : Timestamp} (h : ¬ b ≤ a) : a < b := UInt64.not_le.1 h

theorem le_antisymm {a b : Timestamp} (h : a ≤ b) (h' : b ≤ a) : a = b :=
  KeyOrder.total (fun hlt => UInt64.not_lt.2 h' hlt) fun hlt => UInt64.not_lt.2 h hlt

theorem latest_eq (a b : Timestamp) : a.latest b = a ∨ a.latest b = b := by
  unfold latest
  split
  · exact .inr rfl
  · exact .inl rfl

theorem le_latest (a b : Timestamp) : a ≤ a.latest b ∧ b ≤ a.latest b := by
  unfold latest
  split
  · rename_i h
    exact ⟨UInt64.le_of_lt h, UInt64.le_refl _⟩
  · rename_i h
    exact ⟨UInt64.le_refl _, UInt64.not_lt.1 h⟩

theorem latest_lt_iff {a b c : Timestamp} : a.latest b < c ↔ a < c ∧ b < c := by
  unfold latest
  split
  · rename_i h
    exact ⟨fun hb => ⟨KeyOrder.trans h hb, hb⟩, And.right⟩
  · rename_i h
    refine ⟨fun ha => ⟨ha, ?_⟩, And.left⟩
    by_cases heq : b = a
    · exact heq ▸ ha
    · -- `a` is not before `b` and the two differ, so `b` is before `a`.
      have hlt : b < a := by
        by_contra hn
        exact heq (KeyOrder.total hn h)
      exact KeyOrder.trans hlt ha

end Timestamp

namespace Cell

/-- **The order of cells:** by time, then deletions above values, then values in byte order. -/
inductive Below : Cell → Cell → Prop
  /-- It was written earlier. -/
  | earlier {c c' : Cell} (h : c.written < c'.written) : Below c c'
  /-- It is a value and the other a deletion of the same time. -/
  | deleted (written : Timestamp) (value : Bytes) : Below ⟨written, some value⟩ ⟨written, none⟩
  /-- It is the lesser of two values of one time. -/
  | lesser (written : Timestamp) {value value' : Bytes} (h : value < value') :
      Below ⟨written, some value⟩ ⟨written, some value'⟩

instance : LT Cell := ⟨Below⟩

/-- **`supersedes` is the order** `<` of cells. -/
theorem supersedes_iff {candidate existing : Cell} :
    candidate.supersedes existing = true ↔ existing < candidate := by
  obtain ⟨w, v⟩ := candidate
  obtain ⟨w', v'⟩ := existing
  unfold supersedes
  constructor
  · intro h
    split at h
    · exact .earlier ‹_›
    · split at h
      · simp at h
      · -- Neither was written before the other, so the times are one.
        obtain rfl : w = w' := KeyOrder.total ‹_› ‹_›
        cases v <;> cases v' <;> simp only [Bool.false_eq_true] at h
        · exact .deleted ..
        · exact .lesser _ (by simpa using h)
  · intro h
    cases h with
    | earlier h => rw [if_pos h]
    | deleted => simp [KeyOrder.irrefl]
    | lesser _ h => simpa [KeyOrder.irrefl] using h

instance : KeyOrder Cell where
  irrefl a h := by
    cases h with
    | earlier h => exact KeyOrder.irrefl _ h
    | lesser _ h => exact List.lt_irrefl _ h
  trans {a b c} h h' := by
    cases h with
    | earlier h =>
      cases h' with
      | earlier h' => exact .earlier (KeyOrder.trans h h')
      | deleted => exact .earlier h
      | lesser => exact .earlier h
    | deleted written value =>
      cases h' with
      | earlier h' => exact .earlier h'
    | lesser written h =>
      cases h' with
      | earlier h' => exact .earlier h'
      | deleted => exact .deleted ..
      | lesser _ h' => exact .lesser _ (List.lt_trans h h')
  total {a b} h h' := by
    obtain ⟨w, v⟩ := a
    obtain ⟨w', v'⟩ := b
    obtain rfl : w = w' := KeyOrder.total (fun g => h (.earlier g)) (fun g => h' (.earlier g))
    cases v with
    | none =>
      cases v' with
      | none => rfl
      | some v' => exact absurd (.deleted ..) h'
    | some v =>
      cases v' with
      | none => exact absurd (.deleted ..) h
      | some v' =>
        have hv : v = v' :=
          List.le_antisymm (fun g => h' (.lesser _ g)) (fun g => h (.lesser _ g))
        rw [hv]

/-- The cell is in the list, and every other one there is below it. -/
def Greatest (c : Cell) (cs : List Cell) : Prop := c ∈ cs ∧ ∀ c' ∈ cs, c' = c ∨ c' < c

/-- There is at most one `Greatest` cell, and only membership in the list matters for it. -/
theorem Greatest.eq {c c' : Cell} {cs cs' : List Cell} (h : c.Greatest cs) (h' : c'.Greatest cs')
    (hmem : ∀ x, x ∈ cs ↔ x ∈ cs') : c = c' := by
  rcases h.2 c' ((hmem c').2 h'.1) with heq | hlt
  · exact heq.symm
  · rcases h'.2 c ((hmem c).1 h.1) with heq | hgt
    · exact heq
    · exact absurd (KeyOrder.trans hlt hgt) (KeyOrder.irrefl _)

/-- **The `Greatest` of one cell more:** the new one if it `supersedes` the one so far. -/
theorem Greatest.concat {cs : List Cell} {old : Cell} (h : old.Greatest cs) (new : Cell) :
    (if new.supersedes old then new else old).Greatest (cs ++ [new]) := by
  split
  · rename_i hnew
    have hlt : old < new := supersedes_iff.1 hnew
    refine ⟨by simp, fun c hc => ?_⟩
    rcases List.mem_append.1 hc with hc | hc
    · rcases h.2 c hc with rfl | hc
      · exact .inr hlt
      · exact .inr (KeyOrder.trans hc hlt)
    · exact .inl (List.mem_singleton.1 hc)
  · rename_i hnew
    refine ⟨List.mem_append_left _ h.1, fun c hc => ?_⟩
    rcases List.mem_append.1 hc with hc | hc
    · exact h.2 c hc
    · -- The order is total: what does not supersede is below, or the same.
      rw [List.mem_singleton.1 hc]
      by_contra hn
      obtain ⟨hne, hge⟩ := not_or.1 hn
      exact hne (KeyOrder.total hge fun hlt => hnew (supersedes_iff.2 hlt))

end Cell

/-- The cell that an edit of time `written` puts into `slot`. -/
def Edit.cell? (slot : Slot) (written : Timestamp) : Edit → Option Cell
  | .upsert clustering column value =>
    if slot = ⟨clustering, column⟩ then some ⟨written, some value⟩ else none
  | .deleteCell clustering column =>
    if slot = ⟨clustering, column⟩ then some ⟨written, none⟩ else none
  | .deletePartition => none

/-- Edits with the times they were written at. -/
abbrev Edits := List (Edit × Timestamp)

namespace Edits

/-- The cells that arrived at `slot`. -/
def cells (slot : Slot) (edits : Edits) : List Cell := edits.filterMap fun a => a.1.cell? slot a.2

/-- When the partition was deleted as a whole: the times of the `deletePartition` edits. -/
def deletions (edits : Edits) : List Timestamp :=
  edits.filterMap fun a => if a.1 = .deletePartition then some a.2 else none

end Edits

namespace Partition

/-- A partition after some edits, from the empty one. -/
def after (edits : Edits) : Partition := edits.foldl (fun p a => p.edit a.2 a.1) empty

theorem after_concat (edits : Edits) (e : Edit) (written : Timestamp) :
    after (edits ++ [(e, written)]) = (after edits).edit written e := by
  simp [after]

/-- What `slot'` holds after a cell was merged into `slot`. -/
theorem get?_cells_merge (p : Partition) (slot slot' : Slot) (c : Cell) :
    (p.merge slot c).cells.get? slot' =
      if slot' = slot ∧ (p.cells.get? slot).all c.supersedes then some c
      else p.cells.get? slot' := by
  unfold merge
  split
  · rename_i hwins
    simp only [OrderedMap.get?_insert, hwins, and_true]
  · rename_i hwins
    rw [if_neg fun h => hwins h.2]

/-- **What a slot holds after one edit:** its `cell?`, if that supersedes what is there. -/
theorem get?_cells_edit (p : Partition) (slot : Slot) (e : Edit) (written : Timestamp) :
    (p.edit written e).cells.get? slot =
      match e.cell? slot written with
      | none => p.cells.get? slot
      | some c => if (p.cells.get? slot).all c.supersedes then some c else p.cells.get? slot := by
  -- Values and deletions of cells arrive alike.
  have harrives (slot' : Slot) (c : Cell) : (p.merge slot' c).cells.get? slot =
      match if slot = slot' then some c else none with
      | none => p.cells.get? slot
      | some c => if (p.cells.get? slot).all c.supersedes then some c else p.cells.get? slot := by
    rw [get?_cells_merge]
    by_cases h : slot = slot'
    · simp only [h, true_and, if_true]
    · simp only [h, false_and, if_false]
  cases e with
  | upsert clustering column value => exact harrives _ _
  | deleteCell clustering column => exact harrives _ _
  | deletePartition => rfl

/-- **A slot holds the `Greatest` cell** that ever arrived there. -/
theorem get?_cells_after (edits : Edits) (slot : Slot) :
    (∀ c, (after edits).cells.get? slot = some c → c.Greatest (edits.cells slot))
      ∧ ((after edits).cells.get? slot = none → edits.cells slot = []) := by
  induction edits using List.reverseRecOn with
  | nil => exact ⟨fun c h => by simp [after, empty] at h, fun _ => rfl⟩
  | append_singleton edits a ih =>
    obtain ⟨e, written⟩ := a
    have hcells : Edits.cells slot (edits ++ [(e, written)]) =
        Edits.cells slot edits ++ (e.cell? slot written).toList := by
      simp only [Edits.cells, List.filterMap_append, List.filterMap_cons, List.filterMap_nil]
      cases e.cell? slot written <;> rfl
    rw [after_concat, get?_cells_edit, hcells]
    -- The edit puts one cell more into the slot, or none.
    cases e.cell? slot written with
    | none => simpa using ih
    | some new =>
      cases hold : (after edits).cells.get? slot with
      | none =>
        rw [hold] at ih
        simp [ih.2 rfl, Cell.Greatest]
      | some old =>
        rw [hold] at ih
        have hgreatest := (ih.1 old rfl).concat new
        simp only [Option.all_some, Option.toList_some]
        split at hgreatest <;> simp [*]

/-- `deletedAt` is the latest of the `deletions`. -/
theorem deletedAt_after (edits : Edits) (written : Timestamp) :
    (after edits).deletedAt.all (fun deleted => decide (deleted < written)) = true
      ↔ ∀ deleted ∈ edits.deletions, deleted < written := by
  induction edits using List.reverseRecOn with
  | nil => simp [after, empty, Edits.deletions]
  | append_singleton edits a ih =>
    obtain ⟨e, time⟩ := a
    -- Writing a cell leaves the partition's tombstone alone, so only `deletePartition` matters.
    have hmerge (slot : Slot) (c : Cell) :
        ((after edits).merge slot c).deletedAt = (after edits).deletedAt := by
      unfold merge
      split <;> rfl
    rw [after_concat]
    cases e with
    | upsert clustering column value =>
      simpa [edit, hmerge, Edits.deletions] using ih
    | deleteCell clustering column =>
      simpa [edit, hmerge, Edits.deletions] using ih
    | deletePartition =>
      have hdeletions : Edits.deletions (edits ++ [(.deletePartition, time)]) =
          Edits.deletions edits ++ [time] := by
        simp [Edits.deletions]
      simp only [hdeletions, List.forall_mem_append, List.forall_mem_singleton, ← ih, edit, delete]
      cases (after edits).deletedAt with
      | none => simp
      | some former => simp [Timestamp.latest_lt_iff]

/-- **What can be seen:** a value written after every one of the `deletions`. -/
theorem visible_after (edits : Edits) (c : Cell) :
    (after edits).visible c = true
      ↔ c.value.isSome ∧ ∀ deleted ∈ edits.deletions, deleted < c.written := by
  rw [← deletedAt_after]
  simp [visible, Cell.tombstone]

/-- **What can be read** at a slot: the `Greatest` cell there, if it can be seen. -/
theorem read_after (edits : Edits) (slot : Slot) (value : Bytes) :
    (after edits).read slot = some value ↔
      ∃ c : Cell, c.Greatest (edits.cells slot) ∧ c.value = some value
        ∧ ∀ deleted ∈ edits.deletions, deleted < c.written := by
  -- What the slot keeps is a greatest cell of those written to it.
  have hkept := get?_cells_after edits slot
  unfold read
  constructor
  · intro h
    obtain ⟨c, hc, hvalue⟩ := Option.bind_eq_some_iff.1 h
    obtain ⟨hget, hvisible⟩ := Option.filter_eq_some_iff.1 hc
    exact ⟨c, hkept.1 c hget, hvalue, ((visible_after edits c).1 hvisible).2⟩
  · rintro ⟨c, hgreatest, hvalue, hafter⟩
    cases hget : (after edits).cells.get? slot with
    | none =>
      have hmem := hgreatest.1
      rw [hkept.2 hget] at hmem
      simp at hmem
    | some c' =>
      -- Two greatest cells of one slot are the same cell.
      obtain rfl := hgreatest.eq (hkept.1 c' hget) fun _ => Iff.rfl
      have hvisible : (after edits).visible c = true :=
        (visible_after edits c).2 ⟨by simp [hvalue], hafter⟩
      simp [Option.filter, hvisible, hvalue]

end Partition

end BatchJournal
