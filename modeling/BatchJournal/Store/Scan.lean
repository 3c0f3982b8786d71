import BatchJournal.Log.Recovery

namespace BatchJournal

/-!
# Scans

A scan visits the ids that were stored when it was opened, in ascending order, and fetches each
entry only when its turn comes: an entry deleted in the meantime is passed over, one replaced is
seen as it is by then, and one added later is not visited.
-/

/-- The ids that a scan has still to visit, fixed when it begins. -/
structure Scan where
  /-- The ids, ascending. -/
  ids : List BatchId
deriving DecidableEq

namespace Scan

/-- The scan of everything stored now: all ids of `es`. -/
def ofEntries (es : Entries) : Scan := ⟨es.ids⟩

/-- How many ids were not reached yet: the length of `ids`. -/
def remaining (s : Scan) : Nat := s.ids.length

/-- The least and the greatest number of entries still to come: `0` and `remaining`. -/
def bounds (s : Scan) : Nat × Nat := (0, s.remaining)

/-- **A look at the next id:** its entry as it is stored now, and the scan behind it; `none` when no
    id is left. -/
def visit (s : Scan) (es : Entries) : Option (Option Entry × Scan) :=
  match s.ids with
  | [] => none
  | id :: rest => some (es.get? id, ⟨rest⟩)

/-- A look comes to the next id, and the scan `s'` goes on behind it. -/
theorem visit_eq_some_iff {s s' : Scan} {es : Entries} {found : Option Entry} :
    s.visit es = some (found, s') ↔ ∃ id, s.ids = id :: s'.ids ∧ es.get? id = found := by
  obtain ⟨ids⟩ := s
  obtain ⟨rest⟩ := s'
  cases ids with
  | nil => simp [visit]
  | cons id ids =>
    simp only [visit, Option.some.injEq, Prod.mk.injEq, mk.injEq, List.cons.injEq]
    constructor
    · rintro ⟨hfound, hrest⟩
      exact ⟨id, ⟨rfl, hrest⟩, hfound⟩
    · rintro ⟨_, ⟨rfl, hrest⟩, hfound⟩
      exact ⟨hfound, hrest⟩

/-- There is no look just if no id is left: `s.ids` is empty. -/
theorem visit_eq_none_iff {s : Scan} {es : Entries} : s.visit es = none ↔ s.ids = [] := by
  unfold visit
  cases s.ids <;> simp

/-- **The next entry** among those still stored, with the scan behind it: `visit` until one is
    found. -/
def next (s : Scan) (es : Entries) : Option Entry × Scan :=
  go s.ids
where
  /-- Looks through the ids for one that is stored. -/
  go : List BatchId → Option Entry × Scan
    | [] => (none, ⟨[]⟩)
    | id :: rest =>
      match es.get? id with
      | some e => (some e, ⟨rest⟩)
      | none => go rest

/-- At most `n` entries while the store does not change. -/
def take : Nat → Scan → Entries → List Entry × Scan
  | 0, s, _ => ([], s)
  | n + 1, s, es =>
    match s.next es with
    | (none, s') => ([], s')
    | (some e, s') =>
      let (more, s'') := take n s' es
      (e :: more, s'')

/-- All entries to the end while the store does not change: `next` until there is none. -/
def drain (s : Scan) (es : Entries) : List Entry × Scan := s.take (s.remaining + 1) es

/-- A description: how many ids are `remaining`. -/
def description (s : Scan) : String :=
  "BatchScan \x7b remaining: " ++ toString s.remaining ++ " \x7d"

end Scan

end BatchJournal
