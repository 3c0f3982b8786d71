import BatchJournal.Proofs.Log.Parsing

namespace BatchJournal

/-!
# The longest sequence of records

Which records a byte string holds can be said without a parser: each is read where the one before
it ended (`Log.BackToBack`), and no longer sequence is (`Log.Longest`).  Every byte string has one
longest sequence, and in framed records that are cut somewhere it is the records in front of the
cut.

* `Log.longest_iff` — the longest sequence is the one after which no record stands.
* `Log.exists_longest`, `Log.Longest.unique` — there is one, and no other.
* `Log.before`, `Log.longest_take` — the records that are whole in front of a cut.
-/

namespace Log

/-- **Records stand back to back** at the front of a byte string if each is read where the one
    before it ended; behind the last of them some bytes are left. -/
inductive BackToBack : Bytes → List Record → Bytes → Prop where
  /-- No record, and everything is left. -/
  | nil (bs : Bytes) : BackToBack bs [] bs
  /-- A record is read, and the others stand behind the bytes that it took. -/
  | cons {bs rest : Bytes} {r : Record} {n : Nat} {rs : List Record}
    (hread : Record.decode bs = .ok (r, n)) (hmore : BackToBack (bs.drop n) rs rest) :
    BackToBack bs (r :: rs) rest

/-- **The longest sequence of records:** they stand `BackToBack`, and any others that do so are some
    of them. -/
structure Longest (bs : Bytes) (rs : List Record) (rest : Bytes) : Prop where
  /-- The records stand back to back. -/
  stands : BackToBack bs rs rest
  /-- Every other sequence is a part of this one. -/
  longest : ∀ {rs' : List Record} {rest' : Bytes}, BackToBack bs rs' rest' → rs' <+: rs

variable {bs rest : Bytes} {rs : List Record}

/-! ### Sequences and framed records -/

/-- `BackToBack` records are framed records, one after another. -/
theorem backToBack_iff :
    BackToBack bs rs rest ↔ bs = bytes rs ++ rest ∧ ∀ r ∈ rs, r.Fits := by
  constructor
  · intro h
    induction h with
    | nil bs => exact ⟨rfl, by simp⟩
    | cons hread hmore ih =>
      -- A record that is read is a prefix of the bytes, and its length is how far the reading went.
      obtain ⟨hfits, rfl, tail, rfl⟩ := Record.prefix_of_decode hread
      obtain ⟨hbytes, hrest⟩ := ih
      rw [← Record.length_bytes, List.drop_left] at hbytes
      refine ⟨by rw [hbytes, bytes_cons, List.append_assoc], ?_⟩
      intro r' hr'
      rcases List.mem_cons.1 hr' with rfl | hr'
      · exact hfits
      · exact hrest r' hr'
  · rintro ⟨rfl, hfits⟩
    induction rs with
    | nil => exact .nil rest
    | cons r rs ih =>
      have hr : r.Fits := hfits r List.mem_cons_self
      have hmore := ih fun r' hr' => hfits r' (List.mem_cons_of_mem _ hr')
      rw [bytes_cons, List.append_assoc]
      refine .cons (Record.decode_bytes_append hr _) ?_
      rwa [← r.length_bytes, List.drop_left]

theorem BackToBack.append {rs' : List Record} {rest' : Bytes} (h : BackToBack bs rs rest)
    (h' : BackToBack rest rs' rest') : BackToBack bs (rs ++ rs') rest' := by
  induction h with
  | nil bs => exact h'
  | cons hread hmore ih => exact .cons hread (ih h')

/-- **The `Longest` sequence** is the one behind which no record stands. -/
theorem longest_iff :
    Longest bs rs rest ↔ bs = bytes rs ++ rest ∧ (∀ r ∈ rs, r.Fits) ∧ (parse rest).records = [] := by
  constructor
  · intro h
    obtain ⟨hbytes, hfits⟩ := backToBack_iff.1 h.stands
    refine ⟨hbytes, hfits, ?_⟩
    obtain ⟨more, tail, hrest, hmore, htail⟩ := exists_eq_bytes_append rest
    -- Records behind the longest sequence would make a longer one.
    have hlonger := h.longest (h.stands.append (backToBack_iff.2 ⟨hrest, hmore⟩))
    have hnone : more = [] := by
      have hle := hlonger.length_le
      rw [List.length_append] at hle
      exact List.length_eq_zero_iff.1 (by omega)
    rw [hrest, hnone, bytes_nil, List.nil_append]
    exact htail
  · rintro ⟨hbytes, hfits, hrest⟩
    refine ⟨backToBack_iff.2 ⟨hbytes, hfits⟩, fun {rs' rest'} h' => ?_⟩
    obtain ⟨hbytes', hfits'⟩ := backToBack_iff.1 h'
    -- Both are the beginning of what the reader finds, and the one is all of it.
    have hparse := congrArg (fun p => p.records.map (·.1)) (parse_bytes_append hfits rest)
    have hparse' := congrArg (fun p => p.records.map (·.1)) (parse_bytes_append hfits' rest')
    rw [← hbytes] at hparse
    rw [← hbytes', hparse] at hparse'
    simp only [hrest, List.append_nil, List.map_append, map_fst_parsed] at hparse'
    exact ⟨_, hparse'.symm⟩

/-- Every byte string has a `Longest` sequence of records. -/
theorem exists_longest (bs : Bytes) : ∃ rs rest, Longest bs rs rest := by
  obtain ⟨rs, tail, hbytes, hfits, htail⟩ := exists_eq_bytes_append bs
  exact ⟨rs, tail, longest_iff.2 ⟨hbytes, hfits, htail⟩⟩

/-- A sequence behind which `decode` fails is the `Longest`. -/
theorem BackToBack.longest_of_error {e : FormatError} (h : BackToBack bs rs rest)
    (hrest : Record.decode rest = .error e) : Longest bs rs rest := by
  obtain ⟨hbytes, hfits⟩ := backToBack_iff.1 h
  refine longest_iff.2 ⟨hbytes, hfits, ?_⟩
  by_cases hnil : rest = []
  · rw [hnil, parse_nil]
  · rw [parse_of_error hnil hrest]

/-- There is only one `Longest` sequence. -/
theorem Longest.unique {rs' : List Record} {rest' : Bytes} (h : Longest bs rs rest)
    (h' : Longest bs rs' rest') : rs' = rs ∧ rest' = rest := by
  obtain rfl : rs' = rs :=
    (h.longest h'.stands).eq_of_length_le (h'.longest h.stands).length_le
  have hbytes := (backToBack_iff.1 h.stands).1
  rw [(backToBack_iff.1 h'.stands).1] at hbytes
  exact ⟨rfl, List.append_cancel_left hbytes⟩

/-- A file of a header and any bytes is a log of the `Longest` sequence in them. -/
theorem Longest.holds {head : Bytes} (h : Longest bs rs rest) (hhead : Header.Opens head) :
    Holds (head ++ bs) rs rest := by
  obtain ⟨hbytes, hfits, hrest⟩ := longest_iff.1 h
  exact ⟨head, hhead, by rw [hbytes], hfits, hrest⟩

/-! ### Records in front of a cut -/

/-- **The records that are whole in front of a cut,** which is `cut` bytes behind the beginning of
    the first. -/
def before : Nat → List Record → List Record
  | _, [] => []
  | cut, r :: rs =>
    if r.encodedLength ≤ cut then r :: before (cut - r.encodedLength) rs else []

/-- **Framed records that are cut** hold the records `before` the cut; what is left of the next is
    no record. -/
theorem longest_take (h : ∀ r ∈ rs, r.Fits) (cut : Nat) :
    ∃ rest, Longest ((bytes rs).take cut) (before cut rs) rest := by
  suffices hparts : ∃ rest, (bytes rs).take cut = bytes (before cut rs) ++ rest
      ∧ (∀ r ∈ before cut rs, r.Fits) ∧ (parse rest).records = [] by
    obtain ⟨rest, hparts⟩ := hparts
    exact ⟨rest, longest_iff.2 hparts⟩
  induction rs generalizing cut with
  | nil => exact ⟨[], by simp [before], by simp [before], rfl⟩
  | cons r rs ih =>
    have hr : r.Fits := h r List.mem_cons_self
    unfold before
    split
    · -- The record is whole, and the cut falls into what stands behind it.
      rename_i hwhole
      obtain ⟨rest, hbytes, hfits, hrest⟩ :=
        ih (fun r' hr' => h r' (List.mem_cons_of_mem _ hr')) (cut - r.encodedLength)
      refine ⟨rest, ?_, ?_, hrest⟩
      · rw [bytes_cons, bytes_cons, List.append_assoc, ← hbytes, List.take_append,
          List.take_of_length_le (by rw [r.length_bytes]; exact hwhole), r.length_bytes]
      · intro r' hr'
        rcases List.mem_cons.1 hr' with rfl | hr'
        · exact hr
        · exact hfits r' hr'
    · -- The cut falls into the record, and the part that is left of it is not read.
      rename_i htorn
      have htake : (bytes (r :: rs)).take cut = r.bytes.take cut := by
        rw [bytes_cons, List.take_append_of_le_length]
        rw [r.length_bytes]
        omega
      have hshort : r.bytes.take cut ≠ r.bytes := by
        intro heq
        have hlength := congrArg List.length heq
        rw [List.length_take, r.length_bytes] at hlength
        omega
      exact ⟨r.bytes.take cut, by rw [htake]; rfl, by simp,
        parse_torn hr (List.take_prefix _ _) hshort⟩

end Log

end BatchJournal
