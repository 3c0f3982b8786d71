import BatchJournal.Log.Recovery
import BatchJournal.Proofs.Log.Framing

namespace BatchJournal

/-!
# What a log file reads as

Every file that opens with a valid header is a header, framed records, and a tail in which no record
stands (`Log.Holds`).  Reading it gives exactly those records, so a log that grows by a framed
record reads as one record more, and a log that ends within one reads as before.

* `Log.parse_bytes_append` — framed records are read one after another.
* `Log.holds_of_valid` — every file with a valid header is of that form.
* `Log.Holds.append`, `Log.Holds.torn` — a record more, and a part of one.
-/

namespace Log

/-- Framed records, one after another. -/
def bytes (rs : List Record) : Bytes := rs.flatMap Record.bytes

@[simp] theorem bytes_nil : bytes [] = [] := rfl

@[simp] theorem bytes_cons (r : Record) (rs : List Record) :
    bytes (r :: rs) = r.bytes ++ bytes rs := rfl

@[simp] theorem bytes_append (rs rs' : List Record) :
    bytes (rs ++ rs') = bytes rs ++ bytes rs' := by
  simp [bytes]

/-! ### Parsing record by record -/

/-- Fuel beyond the length changes nothing for `parseWith`, since every record takes bytes. -/
theorem parseWith_eq_of_le {fuel fuel' : Nat} {bs : Bytes} (h : bs.length ≤ fuel)
    (h' : bs.length ≤ fuel') : parseWith fuel bs = parseWith fuel' bs := by
  induction fuel generalizing fuel' bs with
  | zero =>
    obtain rfl := List.length_eq_zero_iff.1 (Nat.le_zero.1 h)
    cases fuel' <;> rfl
  | succ fuel ih =>
    cases bs with
    | nil => cases fuel' <;> rfl
    | cons b bs =>
      cases fuel' with
      | zero => simp at h'
      | succ fuel' =>
        simp only [parseWith]
        cases hd : Record.decode (b :: bs) with
        | error e => rfl
        | ok p =>
          obtain ⟨r, n⟩ := p
          -- A record has at least one byte, so both runs go on with fuel enough.
          obtain ⟨-, hn, -⟩ := Record.prefix_of_decode hd
          have hge := r.encodedLength_ge
          have hdrop : ((b :: bs).drop n).length ≤ bs.length := by
            simp only [List.length_drop, List.length_cons]
            omega
          simp only [List.length_cons] at h h'
          simp only
          rw [@ih fuel' _ (by omega) (by omega)]

@[simp] theorem parse_nil : parse [] = ⟨[], none⟩ := rfl

/-- Bytes in which `decode` finds no record end the parse. -/
theorem parse_of_error {bs : Bytes} {e : FormatError} (hne : bs ≠ [])
    (h : Record.decode bs = .error e) : parse bs = ⟨[], some e⟩ := by
  cases bs with
  | nil => exact absurd rfl hne
  | cons b bs => simp [parse, parseWith, h]

/-- A framed record comes first, and what follows it is parsed by itself. -/
theorem parse_record_append {r : Record} (h : r.Fits) (rest : Bytes) :
    parse (r.bytes ++ rest)
      = ⟨(r, r.encodedLength) :: (parse rest).records, (parse rest).stop⟩ := by
  have hge := r.encodedLength_ge
  have hlen : (r.bytes ++ rest).length = r.encodedLength + rest.length := by simp
  obtain ⟨b, bs, hbs⟩ : ∃ b bs, r.bytes ++ rest = b :: bs := by
    cases hb : r.bytes ++ rest with
    | nil => exact absurd (List.append_eq_nil_iff.1 hb).1 r.bytes_ne_nil
    | cons b bs => exact ⟨b, bs, rfl⟩
  have hdecode := Record.decode_bytes_append h rest
  have hdrop : (r.bytes ++ rest).drop r.encodedLength = rest := by
    rw [← r.length_bytes, List.drop_left]
  rw [hbs] at hdecode hdrop hlen
  simp only [List.length_cons] at hlen
  rw [hbs]
  simp only [parse, List.length_cons, parseWith, hdecode, hdrop]
  rw [@parseWith_eq_of_le _ rest.length _ (by omega) (Nat.le_refl _)]

/-- **Framed records are read** one after another, and then what stands behind them. -/
theorem parse_bytes_append {rs : List Record} (h : ∀ r ∈ rs, r.Fits) (tail : Bytes) :
    parse (bytes rs ++ tail)
      = ⟨rs.map (fun r => (r, r.encodedLength)) ++ (parse tail).records, (parse tail).stop⟩ := by
  induction rs with
  | nil => simp
  | cons r rs ih =>
    have hr : r.Fits := h r List.mem_cons_self
    have hrs := ih fun r' hr' => h r' (List.mem_cons_of_mem _ hr')
    rw [bytes_cons, List.append_assoc, parse_record_append hr, hrs]
    simp

/-- In a framed record that is cut short no record stands. -/
theorem parse_torn {r : Record} (h : r.Fits) {torn : Bytes} (hbegins : torn <+: r.bytes)
    (hne : torn ≠ r.bytes) : (parse torn).records = [] := by
  by_cases hnil : torn = []
  · subst hnil
    rfl
  · rw [parse_of_error hnil (Record.decode_torn h hbegins hne)]

/-- Every byte string is framed records and a tail in which no record stands. -/
theorem exists_eq_bytes_append (bs : Bytes) :
    ∃ rs tail, bs = bytes rs ++ tail ∧ (∀ r ∈ rs, r.Fits) ∧ (parse tail).records = [] := by
  -- Strong induction on the length: what is left behind a record is shorter.
  induction hn : bs.length using Nat.strongRecOn generalizing bs with
  | ind n ih =>
    cases hd : Record.decode bs with
    | error e =>
      refine ⟨[], bs, rfl, by simp, ?_⟩
      by_cases hnil : bs = []
      · subst hnil
        rfl
      · rw [parse_of_error hnil hd]
    | ok p =>
      obtain ⟨r, m⟩ := p
      obtain ⟨hfits, -, rest, rfl⟩ := Record.prefix_of_decode hd
      have hge := r.encodedLength_ge
      simp only [List.length_append, Record.length_bytes] at hn
      obtain ⟨rs, tail, rfl, hrs, htail⟩ := ih rest.length (by omega) rest rfl
      refine ⟨r :: rs, tail, by simp, ?_, htail⟩
      intro r' hr'
      rcases List.mem_cons.1 hr' with rfl | hr'
      · exact hfits
      · exact hrs r' hr'

/-- The records of a parse, without their lengths. -/
@[simp] theorem map_fst_parsed (rs : List Record) :
    (rs.map fun r => (r, r.encodedLength)).map (·.1) = rs := by
  rw [List.map_map]
  exact List.map_id rs

/-- `Parsed.length` is that of the framed records. -/
theorem length_parsed {rs : List Record} {stop : Option FormatError} :
    Parsed.length ⟨rs.map (fun r => (r, r.encodedLength)), stop⟩ = (bytes rs).length := by
  induction rs with
  | nil => rfl
  | cons r rs ih =>
    simp only [Parsed.length] at ih ⊢
    simp [ih]

end Log

/-! ### The header -/

namespace Header

/-- The bytes are a header of a log in this format; the reserved bytes may be anything. -/
structure Opens (head : Bytes) : Prop where
  /-- There are sixteen of them. -/
  length_eq : head.length = Header.length
  /-- The magic and the version are right. -/
  valid : (Header.decode head).valid = true

/-- What follows the header has no part in `Header.decode`. -/
theorem decode_append {head : Bytes} (h : head.length = Header.length) (rest : Bytes) :
    Header.decode (head ++ rest) = Header.decode head := by
  have h16 : head.length = 16 := h
  have htake : (head ++ rest).take 4 = head.take 4 := List.take_append_of_le_length (by omega)
  have hdrop : ((head ++ rest).drop 4).take 4 = (head.drop 4).take 4 := by
    rw [List.drop_append_of_le_length (by omega)]
    exact List.take_append_of_le_length (by rw [List.length_drop]; omega)
  simp only [Header.decode, htake, hdrop]

theorem opens_current : Opens current.encode := ⟨rfl, by decide⟩

end Header

/-! ### Files -/

namespace Log

/-- **A log file:** a header, the framed records `rs`, and a `tail` in which no record stands. -/
def Holds (file : Bytes) (rs : List Record) (tail : Bytes) : Prop :=
  ∃ head, Header.Opens head ∧ file = head ++ (bytes rs ++ tail) ∧ (∀ r ∈ rs, r.Fits)
    ∧ (parse tail).records = []

/-- Every file with a valid header is a log file. -/
theorem holds_of_valid {file : Bytes} (hlen : Header.length ≤ file.length)
    (hvalid : (Header.decode file).valid = true) : ∃ rs tail, Holds file rs tail := by
  have hhead : (file.take Header.length).length = Header.length := by
    rw [List.length_take]
    omega
  obtain ⟨rs, tail, heq, hfits, htail⟩ := exists_eq_bytes_append (file.drop Header.length)
  refine ⟨rs, tail, file.take Header.length, ⟨hhead, ?_⟩, ?_, hfits, htail⟩
  · have happend := Header.decode_append hhead (file.drop Header.length)
    rw [List.take_append_drop] at happend
    rw [← happend]
    exact hvalid
  · rw [← heq, List.take_append_drop]

namespace Holds

variable {file : Bytes} {rs : List Record} {tail : Bytes}

theorem fits (h : Holds file rs tail) : ∀ r ∈ rs, r.Fits := by
  obtain ⟨head, -, -, hfits, -⟩ := h
  exact hfits

theorem length_eq (h : Holds file rs tail) :
    file.length = Header.length + (bytes rs).length + tail.length := by
  obtain ⟨head, hhead, rfl, -, -⟩ := h
  simp only [List.length_append, hhead.length_eq]
  omega

theorem decode_valid (h : Holds file rs tail) : (Header.decode file).valid = true := by
  obtain ⟨head, hhead, rfl, -, -⟩ := h
  rw [Header.decode_append hhead.length_eq]
  exact hhead.valid

/-- The records of a log file are the ones that `parse` reads from it. -/
theorem parse_eq (h : Holds file rs tail) :
    parse (file.drop Header.length)
      = ⟨rs.map (fun r => (r, r.encodedLength)), (parse tail).stop⟩ := by
  obtain ⟨head, hhead, rfl, hfits, htail⟩ := h
  rw [← hhead.length_eq, List.drop_left, parse_bytes_append hfits, htail, List.append_nil]

/-- The log without its tail. -/
theorem take (h : Holds file rs tail) :
    Holds (file.take (Header.length + (bytes rs).length)) rs [] := by
  obtain ⟨head, hhead, rfl, hfits, -⟩ := h
  refine ⟨head, hhead, ?_, hfits, rfl⟩
  rw [← hhead.length_eq, ← List.length_append, ← List.append_assoc, List.take_left, List.append_nil]

/-- **A record more:** its bytes at the end of a log without a tail. -/
theorem append (h : Holds file rs []) {r : Record} (hr : r.Fits) :
    Holds (file ++ r.bytes) (rs ++ [r]) [] := by
  obtain ⟨head, hhead, rfl, hfits, -⟩ := h
  refine ⟨head, hhead, by simp, ?_, rfl⟩
  intro r' hr'
  rcases List.mem_append.1 hr' with hr' | hr'
  · exact hfits r' hr'
  · rw [List.mem_singleton.1 hr']
    exact hr

/-- **A part of a record more** leaves the records as they are, and becomes the tail. -/
theorem torn (h : Holds file rs []) {r : Record} (hr : r.Fits) {part : Bytes}
    (hbegins : part <+: r.bytes) (hne : part ≠ r.bytes) : Holds (file ++ part) rs part := by
  obtain ⟨head, hhead, rfl, hfits, -⟩ := h
  exact ⟨head, hhead, by simp, hfits, parse_torn hr hbegins hne⟩

end Holds

/-- A header alone is a log without records. -/
theorem holds_header : Holds Header.current.encode [] [] :=
  ⟨_, Header.opens_current, by simp, by simp, rfl⟩

end Log

end BatchJournal
