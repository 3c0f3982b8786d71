import BatchJournal.Proofs.Log.Indexing

namespace BatchJournal

/-!
# The records of a log are dead or alive

A record is dead or it is the put of a live entry, so the records of a log are as many as its dead
records and its live entries together.  Every rule by which dead records are counted keeps that: an
overwrite kills one put, a delete is dead itself and may kill one put.

* `OrderedMap.size_insert`, `OrderedMap.size_erase` — a key more and a key less.
* `Index.records_add` — one more record keeps the balance.
* `Index.records_ofRecords` — the balance of a whole log.
-/

/-! ### How many bindings a map has -/

namespace OrderedMap

variable {κ ν : Type} [LT κ] [DecidableEq κ]

theorem lookup_eq_none_of_lt [KeyOrder κ] {k : κ} {bs : List (κ × ν)}
    (h : ∀ b ∈ bs, k < b.1) : lookup k bs = none := by
  induction bs with
  | nil => rfl
  | cons b bs ih =>
    have hne : k ≠ b.1 := fun heq => KeyOrder.irrefl b.1 (heq ▸ h b List.mem_cons_self)
    simp only [lookup, if_neg hne]
    exact ih fun b' hb' => h b' (List.mem_cons_of_mem b hb')

/-- **A binding more,** or another one in the place of the former one of its key: the length after
    `place`. -/
theorem length_place [DecidableLT κ] [KeyOrder κ] (k : κ) (v : ν) {bs : List (κ × ν)}
    (h : bs.Pairwise fun a b => a.1 < b.1) :
    (place k v bs).length = bs.length + if (lookup k bs).isSome then 0 else 1 := by
  induction bs with
  | nil => rfl
  | cons b bs ih =>
    obtain ⟨hb, hbs⟩ := List.pairwise_cons.1 h
    simp only [place]
    split
    · rename_i hlt
      -- The key is below all that are bound.
      have hnone : lookup k (b :: bs) = none := lookup_eq_none_of_lt fun b' hb' => by
        rcases List.mem_cons.1 hb' with rfl | hb'
        · exact hlt
        · exact KeyOrder.trans hlt (hb b' hb')
      simp [hnone]
    · split
      · rename_i heq
        simp [lookup, heq]
      · rename_i hne
        simp only [List.length_cons, lookup, if_neg hne, ih hbs]
        omega

theorem size_insert [DecidableLT κ] [KeyOrder κ] (m : OrderedMap κ ν) (k : κ) (v : ν) :
    (m.insert k v).size = m.size + if m.contains k then 0 else 1 :=
  length_place k v m.sorted

/-- **A binding less,** if there was one of the key: the length after the `filter`. -/
theorem length_filter_ne [KeyOrder κ] (k : κ) {bs : List (κ × ν)}
    (h : bs.Pairwise fun a b => a.1 < b.1) :
    (bs.filter fun b => b.1 ≠ k).length + (if (lookup k bs).isSome then 1 else 0) = bs.length := by
  induction bs with
  | nil => rfl
  | cons b bs ih =>
    obtain ⟨hb, hbs⟩ := List.pairwise_cons.1 h
    have hrest := ih hbs
    by_cases hkey : k = b.1
    · subst hkey
      -- The other keys are above this one.
      have hnone : lookup b.1 bs = none := lookup_eq_none_of_lt hb
      have hfound : lookup b.1 (b :: bs) = some b.2 := if_pos rfl
      rw [hnone] at hrest
      rw [hfound, List.filter_cons_of_neg (by simp)]
      exact congrArg (· + 1) hrest
    · have hsame : lookup k (b :: bs) = lookup k bs := if_neg hkey
      have hkept : b.1 ≠ k := fun heq => hkey heq.symm
      rw [hsame, List.filter_cons_of_pos (by simpa using hkept), List.length_cons,
        List.length_cons, ← hrest]
      exact Nat.add_right_comm _ _ _

theorem size_erase [KeyOrder κ] (m : OrderedMap κ ν) (k : κ) :
    (m.erase k).size + (if m.contains k then 1 else 0) = m.size :=
  length_filter_ne k m.sorted

end OrderedMap

namespace Entries

theorem count_put (es : Entries) (e : Entry) :
    (es.put e).count = es.count + if es.contains e.id then 0 else 1 :=
  es.byId.size_insert e.id e

theorem count_delete (es : Entries) (id : BatchId) :
    (es.delete id).count + (if es.contains id then 1 else 0) = es.count :=
  es.byId.size_erase id

end Entries

/-! ### Dead and live -/

namespace Index

/-- **One more record** is one more that is `dead` or alive. -/
theorem records_add {ix : Index} (h : ix.records = ix.dead + ix.entries.count) (r : Record) :
    (ix.add r).records = (ix.add r).dead + (ix.add r).entries.count := by
  cases r with
  | put e =>
    have hcount := ix.entries.count_put e
    simp only [add]
    split at hcount <;> simp_all <;> omega
  | delete id =>
    have hcount := ix.entries.count_delete id
    simp only [add]
    split at hcount <;> simp_all <;> omega

/-- **The records of a log** are `dead` or the puts of its live entries. -/
theorem records_ofRecords (rs : List Record) :
    (ofRecords rs).records = (ofRecords rs).dead + (ofRecords rs).entries.count := by
  induction rs using List.reverseRecOn with
  | nil => rfl
  | append_singleton rs r ih =>
    rw [ofRecords_append]
    exact records_add ih r

/-- `ofRecords` counts its records. -/
theorem length_of_ofRecords (rs : List Record) : (ofRecords rs).records = rs.length := by
  induction rs using List.reverseRecOn with
  | nil => rfl
  | append_singleton rs r ih =>
    rw [ofRecords_append, List.length_append, List.length_singleton, ← ih]
    cases r <;> rfl

end Index

end BatchJournal
