namespace BatchJournal

/-!
# Maps in key order

Stores, tables, partitions and the codec registry are all finite maps whose order is visible: ids
are scanned, columns listed and versions shown in ascending order.  `OrderedMap κ ν` is such a map,
its bindings kept strictly ascending.

* `OrderedMap.get?`, `insert`, `erase`, `filter`, `keys` — the operations.
* `OrderedMap.get?_insert`, `get?_erase` — what each does to a look-up.
* `OrderedMap.ext_get?` — two maps with equal look-ups are equal.
-/

/-- A strict total order on keys: `irrefl`, `trans` and `total`. -/
class KeyOrder (κ : Type) [LT κ] : Prop where
  /-- No key is below itself. -/
  irrefl (a : κ) : ¬ a < a
  /-- The order is transitive. -/
  trans {a b c : κ} : a < b → b < c → a < c
  /-- Of two distinct keys one is below the other. -/
  total {a b : κ} : ¬ a < b → ¬ b < a → a = b

instance : KeyOrder Nat := ⟨Nat.lt_irrefl, Nat.lt_trans, by omega⟩

/-- A finite map with its bindings in strictly ascending order of keys: `entries` is `sorted`. -/
structure OrderedMap (κ ν : Type) [LT κ] where
  /-- The bindings. -/
  entries : List (κ × ν)
  /-- They ascend. -/
  sorted : entries.Pairwise fun a b => a.1 < b.1

namespace OrderedMap

variable {κ ν : Type} [LT κ]

/-- The map without bindings. -/
def empty : OrderedMap κ ν := ⟨[], .nil⟩

instance : Inhabited (OrderedMap κ ν) := ⟨empty⟩

/-- How many bindings there are in `m.entries`. -/
def size (m : OrderedMap κ ν) : Nat := m.entries.length

/-- The keys, ascending. -/
def keys (m : OrderedMap κ ν) : List κ := m.entries.map (·.1)

/-- The bound values, in key order. -/
def values (m : OrderedMap κ ν) : List ν := m.entries.map (·.2)

/-- The bindings that satisfy the test `p`. -/
def filter (p : κ → ν → Bool) (m : OrderedMap κ ν) : OrderedMap κ ν :=
  ⟨m.entries.filter fun e => p e.1 e.2, m.sorted.filter _⟩

variable [DecidableEq κ]

/-- The value at a key in a list of bindings: that of the first binding of `k`. -/
def lookup (k : κ) : List (κ × ν) → Option ν
  | [] => none
  | (k', v) :: rest => if k = k' then some v else lookup k rest

/-- The value at a key, or `none`. -/
def get? (m : OrderedMap κ ν) (k : κ) : Option ν := lookup k m.entries

/-- The key is bound: `get?` gives a value. -/
def contains (m : OrderedMap κ ν) (k : κ) : Bool := (m.get? k).isSome

/-- The map without the key `k`. -/
def erase (m : OrderedMap κ ν) (k : κ) : OrderedMap κ ν := m.filter fun k' _ => k' ≠ k

variable [DecidableLT κ]

/-- Bindings with one more in its place; a binding of `k` gives way. -/
def place (k : κ) (v : ν) : List (κ × ν) → List (κ × ν)
  | [] => [(k, v)]
  | (k', v') :: rest =>
    if k < k' then (k, v) :: (k', v') :: rest
    else if k = k' then (k, v) :: rest
    else (k', v') :: place k v rest

theorem mem_place {k : κ} {v : ν} {bs : List (κ × ν)} {b : κ × ν} (h : b ∈ place k v bs) :
    b = (k, v) ∨ b ∈ bs := by
  induction bs with
  | nil => simpa [place] using h
  | cons c rest ih =>
    simp only [place] at h
    split at h
    · simpa using h
    · split at h
      · rcases List.mem_cons.1 h with rfl | h
        · exact .inl rfl
        · exact .inr (List.mem_cons_of_mem _ h)
      · rcases List.mem_cons.1 h with rfl | h
        · exact .inr List.mem_cons_self
        · rcases ih h with h | h
          · exact .inl h
          · exact .inr (List.mem_cons_of_mem _ h)

theorem sorted_place [KeyOrder κ] (k : κ) (v : ν) {bs : List (κ × ν)}
    (h : bs.Pairwise fun a b => a.1 < b.1) : (place k v bs).Pairwise fun a b => a.1 < b.1 := by
  induction bs with
  | nil => simp [place]
  | cons c rest ih =>
    obtain ⟨hc, hrest⟩ := List.pairwise_cons.1 h
    simp only [place]
    split
    · rename_i hlt
      refine List.pairwise_cons.2 ⟨fun b hb => ?_, h⟩
      rcases List.mem_cons.1 hb with rfl | hb
      · exact hlt
      · exact KeyOrder.trans hlt (hc b hb)
    · split
      · rename_i _ heq
        subst heq
        exact List.pairwise_cons.2 ⟨hc, hrest⟩
      · rename_i hnlt hne
        refine List.pairwise_cons.2 ⟨fun b hb => ?_, ih hrest⟩
        have hck : c.1 < k := by
          apply Decidable.byContradiction
          intro hn
          exact hne (KeyOrder.total hnlt hn)
        rcases mem_place hb with rfl | hb
        · exact hck
        · exact hc b hb

/-- **Insertion:** `k` is bound to `v`, a former binding of `k` is gone. -/
def insert [KeyOrder κ] (m : OrderedMap κ ν) (k : κ) (v : ν) : OrderedMap κ ν :=
  ⟨place k v m.entries, sorted_place k v m.sorted⟩

/-- The map with the bindings of a list put in one after another by `insert`. -/
def ofList [KeyOrder κ] (bs : List (κ × ν)) : OrderedMap κ ν :=
  bs.foldl (fun m b => m.insert b.1 b.2) empty

/-! ### Look-ups -/

omit [DecidableLT κ] in
theorem lookup_eq_some_iff [KeyOrder κ] {bs : List (κ × ν)}
    (h : bs.Pairwise fun a b => a.1 < b.1) {k : κ} {v : ν} :
    lookup k bs = some v ↔ (k, v) ∈ bs := by
  induction bs with
  | nil => simp [lookup]
  | cons c rest ih =>
    obtain ⟨hc, hrest⟩ := List.pairwise_cons.1 h
    obtain ⟨k', v'⟩ := c
    simp only [lookup, List.mem_cons, Prod.mk.injEq]
    split
    · rename_i heq
      subst heq
      constructor
      · intro hv
        exact .inl ⟨rfl, (Option.some.inj hv).symm⟩
      · rintro (⟨-, rfl⟩ | hm)
        · rfl
        · exact absurd (hc _ hm) (KeyOrder.irrefl _)
    · rename_i hne
      rw [ih hrest]
      simp [hne]

omit [DecidableLT κ] in
/-- `get?` finds exactly the bindings of the map. -/
theorem get?_eq_some_iff [KeyOrder κ] {m : OrderedMap κ ν} {k : κ} {v : ν} :
    m.get? k = some v ↔ (k, v) ∈ m.entries :=
  lookup_eq_some_iff m.sorted

omit [DecidableLT κ] in
@[simp] theorem get?_empty (k : κ) : (empty : OrderedMap κ ν).get? k = none := rfl

theorem lookup_place (k k' : κ) (v : ν) {bs : List (κ × ν)} [KeyOrder κ] :
    lookup k' (place k v bs) = if k' = k then some v else lookup k' bs := by
  induction bs with
  | nil => simp [place, lookup]
  | cons c rest ih =>
    obtain ⟨kc, vc⟩ := c
    simp only [place]
    split
    · simp [lookup]
    · split
      · rename_i _ heq
        subst heq
        simp only [lookup]
        split <;> simp_all
      · rename_i _ hne
        simp only [lookup, ih]
        split
        · rename_i heq
          subst heq
          rw [if_neg (fun h => hne h.symm)]
        · rfl

/-- **Look-up after an insertion:** `v` at `k`, and else what `m` has. -/
theorem get?_insert [KeyOrder κ] (m : OrderedMap κ ν) (k k' : κ) (v : ν) :
    (m.insert k v).get? k' = if k' = k then some v else m.get? k' :=
  lookup_place k k' v

omit [DecidableLT κ] in
/-- **Look-up after a filter:** what `m` has, if it satisfies `p`. -/
theorem get?_filter [KeyOrder κ] (m : OrderedMap κ ν) (p : κ → ν → Bool) (k : κ) :
    (m.filter p).get? k = (m.get? k).filter (p k) := by
  cases h : m.get? k with
  | none =>
    simp only [Option.filter_none]
    cases h' : (m.filter p).get? k with
    | none => rfl
    | some v =>
      have hm := get?_eq_some_iff.1 h'
      simp only [filter, List.mem_filter] at hm
      have := get?_eq_some_iff.2 hm.1
      simp_all
  | some v =>
    have hm := get?_eq_some_iff.1 h
    cases hp : p k v with
    | true =>
      have : (m.filter p).get? k = some v := by
        rw [get?_eq_some_iff]
        simp [filter, List.mem_filter, hm, hp]
      simp [this, hp, Option.filter]
    | false =>
      cases h' : (m.filter p).get? k with
      | none => simp [hp, Option.filter]
      | some w =>
        have hw := get?_eq_some_iff.1 h'
        simp only [filter, List.mem_filter] at hw
        have := get?_eq_some_iff.2 hw.1
        simp_all

omit [DecidableLT κ] in
/-- **Look-up after a removal:** nothing at `k`, and else what `m` has. -/
theorem get?_erase [KeyOrder κ] (m : OrderedMap κ ν) (k k' : κ) :
    (m.erase k).get? k' = if k' = k then none else m.get? k' := by
  rw [erase, get?_filter]
  by_cases h : k' = k
  · simp [h]
  · cases m.get? k' <;> simp [h]

omit [DecidableEq κ] [DecidableLT κ] in
/-- A key of the map has a binding in `m.entries`. -/
theorem mem_keys_iff {m : OrderedMap κ ν} {k : κ} : k ∈ m.keys ↔ ∃ v, (k, v) ∈ m.entries := by
  simp [keys]

omit [DecidableEq κ] [DecidableLT κ] in
/-- The keys ascend strictly, as `sorted` says of the bindings. -/
theorem sorted_keys (m : OrderedMap κ ν) : m.keys.Pairwise (· < ·) :=
  List.pairwise_map.2 m.sorted

omit [DecidableEq κ] [DecidableLT κ] in
/-- Two ascending lists with the same members are equal: `as = bs`. -/
theorem eq_of_sorted [KeyOrder κ] {as bs : List (κ × ν)}
    (ha : as.Pairwise fun a b => a.1 < b.1) (hb : bs.Pairwise fun a b => a.1 < b.1)
    (h : ∀ x, x ∈ as ↔ x ∈ bs) : as = bs := by
  induction as generalizing bs with
  | nil =>
    cases bs with
    | nil => rfl
    | cons b bs => exact absurd ((h b).2 List.mem_cons_self) (by simp)
  | cons a as ih =>
    cases bs with
    | nil => exact absurd ((h a).1 List.mem_cons_self) (by simp)
    | cons b bs =>
      obtain ⟨ha', has⟩ := List.pairwise_cons.1 ha
      obtain ⟨hb', hbs⟩ := List.pairwise_cons.1 hb
      have hab : a = b := by
        rcases List.mem_cons.1 ((h a).1 List.mem_cons_self) with e | hm
        · exact e
        · rcases List.mem_cons.1 ((h b).2 List.mem_cons_self) with e | hm'
          · exact e.symm
          · exact absurd (KeyOrder.trans (ha' b hm') (hb' a hm)) (KeyOrder.irrefl _)
      subst hab
      congr 1
      refine ih has hbs fun x => ⟨fun hx => ?_, fun hx => ?_⟩
      · rcases List.mem_cons.1 ((h x).1 (List.mem_cons_of_mem _ hx)) with rfl | hm
        · exact absurd (ha' _ hx) (KeyOrder.irrefl _)
        · exact hm
      · rcases List.mem_cons.1 ((h x).2 (List.mem_cons_of_mem _ hx)) with rfl | hm
        · exact absurd (hb' _ hx) (KeyOrder.irrefl _)
        · exact hm

omit [DecidableLT κ] in
/-- **Extensionality.** A map is determined by its look-ups: `m` is `n` if `get?` agrees on all
    keys. -/
theorem ext_get? [KeyOrder κ] {m n : OrderedMap κ ν} (h : ∀ k, m.get? k = n.get? k) : m = n := by
  obtain ⟨as, ha⟩ := m
  obtain ⟨bs, hb⟩ := n
  have : as = bs := by
    refine eq_of_sorted ha hb fun x => ?_
    have := h x.1
    constructor <;> intro hx
    · exact get?_eq_some_iff (m := ⟨bs, hb⟩).1
        (this ▸ get?_eq_some_iff (m := ⟨as, ha⟩).2 hx)
    · exact get?_eq_some_iff (m := ⟨as, ha⟩).1
        (this ▸ get?_eq_some_iff (m := ⟨bs, hb⟩).2 hx)
  subst this
  rfl

end OrderedMap

end BatchJournal
