import BatchJournal.Log.Recovery
import Mathlib.Data.List.Induction

namespace BatchJournal

/-!
# The index of a log, record by record

* `Index.ofRecords_append` — a longer log is indexed from where the shorter one left off.
* `Index.ofRecords_puts` — a log of one put for each entry has these entries and nothing dead.
* `Index.put_mem_of_get?` — an entry that is live was put, in just this form.
-/

namespace Entries

/-- An entry of `toList` is the one filed under its id. -/
theorem mem_toList_iff {es : Entries} {e : Entry} : e ∈ es.toList ↔ es.get? e.id = some e := by
  have hmem : e ∈ es.toList ↔ ∃ id, (id, e) ∈ es.byId.entries := by
    simp [toList, OrderedMap.values]
  rw [hmem, get?, OrderedMap.get?_eq_some_iff]
  constructor
  · rintro ⟨id, hid⟩
    have hkey := es.keyed id e (OrderedMap.get?_eq_some_iff.2 hid)
    rwa [hkey]
  · exact fun h => ⟨e.id, h⟩

/-- The id of an entry that is found is in `ids`. -/
theorem mem_ids_of_get? {es : Entries} {id : BatchId} {e : Entry} (h : es.get? id = some e) :
    id ∈ es.ids := by
  rw [ids, OrderedMap.mem_keys_iff]
  exact ⟨e, OrderedMap.get?_eq_some_iff.1 h⟩

/-- The ids of `toList` ascend. -/
theorem sorted_toList (es : Entries) : es.toList.Pairwise fun a b => a.id < b.id := by
  have hkeyed : ∀ b ∈ es.byId.entries, b.2.id = b.1 := fun b hb =>
    es.keyed b.1 b.2 (OrderedMap.get?_eq_some_iff.2 hb)
  refine List.pairwise_map.2 (es.byId.sorted.imp_of_mem ?_)
  intro a b ha hb hlt
  rwa [hkeyed a ha, hkeyed b hb]

@[simp] theorem get?_empty (id : BatchId) : empty.get? id = none := rfl

@[simp] theorem length_toList (es : Entries) : es.toList.length = es.count := by
  simp [toList, OrderedMap.values, count, OrderedMap.size]

/-- Without an entry of an id `delete` does nothing. -/
theorem delete_of_not_contains {es : Entries} {id : BatchId} (h : es.contains id = false) :
    es.delete id = es := by
  have hnone : es.get? id = none := by simpa [contains] using h
  apply ext_get?
  intro id'
  rw [get?_delete]
  by_cases hid : id' = id
  · rw [if_pos hid, hid, hnone]
  · rw [if_neg hid]

end Entries

namespace Index

@[simp] theorem ofRecords_nil : ofRecords [] = empty := rfl

/-- **A record more** is added to the index, by `add`. -/
theorem ofRecords_append (rs : List Record) (r : Record) :
    ofRecords (rs ++ [r]) = (ofRecords rs).add r := by
  simp [ofRecords]

@[simp] theorem entries_add_put (ix : Index) (e : Entry) :
    (ix.add (.put e)).entries = ix.entries.put e := rfl

@[simp] theorem entries_add_delete (ix : Index) (id : BatchId) :
    (ix.add (.delete id)).entries = ix.entries.delete id := rfl

/-- **A live entry was put:** its put is among the records. -/
theorem put_mem_of_get? {rs : List Record} {id : BatchId} {e : Entry}
    (h : (ofRecords rs).entries.get? id = some e) : .put e ∈ rs := by
  -- Induction from the end, for the last record of an id decides.
  induction rs using List.reverseRecOn with
  | nil => simp [empty] at h
  | append_singleton rs r ih =>
    rw [ofRecords_append] at h
    cases r with
    | put e' =>
      rw [entries_add_put, Entries.get?_put] at h
      split at h
      · rw [← Option.some.inj h]
        simp
      · exact List.mem_append_left _ (ih h)
    | delete id' =>
      rw [entries_add_delete, Entries.get?_delete] at h
      split at h
      · simp at h
      · exact List.mem_append_left _ (ih h)

/-- One put for each entry, in id order. -/
def puts (es : Entries) : List Record := es.toList.map .put

/-- Puts under distinct new ids add their entries and leave nothing `dead`. -/
theorem foldl_add_puts {l : List Entry} {ix : Index} (hsorted : l.Pairwise fun a b => a.id < b.id)
    (hnew : ∀ e ∈ l, ix.entries.get? e.id = none) :
    let ix' := (l.map Record.put).foldl add ix
    ix'.records = ix.records + l.length ∧ ix'.dead = ix.dead
      ∧ ∀ id e, ix'.entries.get? id = some e
        ↔ e ∈ l ∧ e.id = id ∨ ix.entries.get? id = some e := by
  -- The ids ascend, so each put is of an id that is not there yet and kills nothing.
  induction l generalizing ix with
  | nil => simp
  | cons e l ih =>
    obtain ⟨he, hl⟩ := List.pairwise_cons.1 hsorted
    have hfresh : ix.entries.get? e.id = none := hnew e List.mem_cons_self
    have hne : ∀ e' ∈ l, e'.id ≠ e.id := fun e' he' heq => by
      have hlt := he e' he'
      rw [heq] at hlt
      exact KeyOrder.irrefl _ hlt
    have hnew' : ∀ e' ∈ l, (ix.add (.put e)).entries.get? e'.id = none := by
      intro e' he'
      rw [entries_add_put, Entries.get?_put, if_neg (hne e' he')]
      exact hnew e' (List.mem_cons_of_mem _ he')
    obtain ⟨hrecords, hdead, hget⟩ := ih hl hnew'
    have hcontains : ix.entries.contains e.id = false := by
      simp [Entries.contains, hfresh]
    refine ⟨?_, ?_, ?_⟩
    · rw [List.map_cons, List.foldl_cons, hrecords]
      simp only [add, List.length_cons]
      omega
    · rw [List.map_cons, List.foldl_cons, hdead]
      simp [add, hcontains]
    · intro id e'
      rw [List.map_cons, List.foldl_cons, hget, entries_add_put, Entries.get?_put, List.mem_cons]
      -- At the id of the first put only it counts, elsewhere what comes behind.
      by_cases hid : id = e.id
      · rw [if_pos hid, hid, hfresh]
        constructor
        · rintro (⟨hmem, hkey⟩ | hsome)
          · exact absurd hkey (hne e' hmem)
          · exact .inl ⟨.inl (Option.some.inj hsome).symm, by rw [← Option.some.inj hsome]⟩
        · rintro (⟨rfl | hmem, hkey⟩ | hsome)
          · exact .inr rfl
          · exact absurd hkey (hne e' hmem)
          · simp at hsome
      · rw [if_neg hid]
        constructor
        · rintro (⟨hmem, hkey⟩ | hsome)
          · exact .inl ⟨.inr hmem, hkey⟩
          · exact .inr hsome
        · rintro (⟨rfl | hmem, hkey⟩ | hsome)
          · exact absurd hkey.symm hid
          · exact .inl ⟨hmem, hkey⟩
          · exact .inr hsome

/-- **One put for each entry** is a log of these entries in which nothing is `dead`. -/
theorem ofRecords_puts (es : Entries) : ofRecords (puts es) = ⟨es, es.count, 0⟩ := by
  obtain ⟨hrecords, hdead, hget⟩ := @foldl_add_puts _ empty es.sorted_toList (by simp [empty])
  -- Entries are compared by their look-ups, and each is filed under its own id.
  have hentries : (ofRecords (puts es)).entries = es := by
    apply Entries.ext_get?
    intro id
    apply Option.ext
    intro e
    rw [puts, ofRecords, hget]
    simp only [empty, Entries.get?_empty, reduceCtorEq, or_false, Entries.mem_toList_iff]
    constructor
    · rintro ⟨hmem, rfl⟩
      exact hmem
    · intro hsome
      obtain rfl := es.keyed id e hsome
      exact ⟨hsome, rfl⟩
  have hcounts : (ofRecords (puts es)).records = es.count ∧ (ofRecords (puts es)).dead = 0 := by
    rw [puts, ofRecords]
    exact ⟨by simpa [empty] using hrecords, hdead⟩
  calc ofRecords (puts es)
      = ⟨(ofRecords (puts es)).entries, (ofRecords (puts es)).records, (ofRecords (puts es)).dead⟩ :=
        rfl
    _ = ⟨es, es.count, 0⟩ := by rw [hentries, hcounts.1, hcounts.2]

theorem entries_ofRecords_puts (es : Entries) : (ofRecords (puts es)).entries = es := by
  rw [ofRecords_puts]

end Index

end BatchJournal
