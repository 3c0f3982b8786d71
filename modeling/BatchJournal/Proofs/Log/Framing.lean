import BatchJournal.Log.Record

namespace BatchJournal

/-!
# Writer and reader of a record agree

A record that fits has one framed form, `Record.bytes`, and the reader knows records by that form
alone:

* `Record.encode_eq` — the writer gives `Record.bytes` exactly for the records that fit.
* `Record.decode_bytes_append` — whatever follows a framed record, the reader finds the record.
* `Record.decode_torn` — of a framed record that is cut short the reader wants more.
* `Record.decode_eq_ok_iff` — and it finds a record nowhere else.
* `Record.prefix_code` — what this says of writer and reader alone.
-/

/-! ### Words -/

/-- `ofLittleEndian` inverts `littleEndian` on a word that is within its width. -/
theorem Bytes.ofLittleEndian_littleEndian_of_lt {width n : Nat} (h : n < wordCount width) :
    ofLittleEndian (littleEndian width n) = n := by
  rw [ofLittleEndian_littleEndian, Nat.mod_eq_of_lt h]

theorem Bytes.wordCount_four : wordCount 4 = UInt32.size := rfl

theorem Bytes.wordCount_eight : wordCount 8 = UInt64.size := rfl

/-- So it does on a 32-bit word. -/
theorem Bytes.ofNat_ofLittleEndian_toNat (w : UInt32) :
    UInt32.ofNat (ofLittleEndian (littleEndian 4 w.toNat)) = w := by
  rw [ofLittleEndian_littleEndian_of_lt w.toNat_lt, UInt32.ofNat_toNat]

/-- `split?` takes exactly what stands in front. -/
theorem Bytes.split?_append_of_length {n : Nat} {front : Bytes} (h : front.length = n)
    (rest : Bytes) : Bytes.split? n (front ++ rest) = some (front, rest) := by
  subst h
  exact split?_append front rest

namespace Record

/-! ### The framed form -/

/-- The reader takes records of this length, at most `maxFramed`. -/
def Fits (r : Record) : Prop := r.encodedLength - 4 ≤ maxFramed

instance (r : Record) : Decidable r.Fits := inferInstanceAs (Decidable (_ ≤ _))

/-- The framed form of a record: length, content, checksum. -/
def bytes (r : Record) : Bytes :=
  Bytes.littleEndian 4 (r.encodedLength - 4)
    ++ (r.content ++ Bytes.littleEndian 4 (Crc32.checksum r.content).toNat)

/-- **`encode`** gives the framed form of what `Fits` and refuses everything else. -/
theorem encode_eq (r : Record) :
    r.encode = if r.Fits then .ok r.bytes else .error (.tooLarge (r.encodedLength - 4)) := by
  by_cases h : r.Fits
  · rw [if_pos h]
    exact if_neg (Nat.not_lt.2 h)
  · rw [if_neg h]
    exact if_pos (Nat.lt_of_not_le h)

theorem fits_delete (id : BatchId) : (delete id).Fits := by
  have hlen : (delete id).encodedLength = 25 := by simp [encodedLength]
  simp [Fits, hlen, maxFramed]

theorem encode_of_fits {r : Record} (h : r.Fits) : r.encode = .ok r.bytes := by
  rw [encode_eq, if_pos h]

theorem encode_eq_ok_iff {r : Record} {bs : Bytes} : r.encode = .ok bs ↔ r.Fits ∧ r.bytes = bs := by
  rw [encode_eq]
  by_cases h : r.Fits <;> simp [h]

/-- `encodedLength` counts kind, body and checksum, and the prefix of four bytes. -/
theorem length_content (r : Record) : r.content.length + 8 = r.encodedLength := by
  cases r with
  | put e =>
    simp only [content, encodedLength, List.length_cons, List.length_append,
      Bytes.length_littleEndian, e.id.length_eq]
    omega
  | delete id => simp [content, encodedLength, id.length_eq]

@[simp] theorem length_bytes (r : Record) : r.bytes.length = r.encodedLength := by
  have h := r.length_content
  simp only [bytes, List.length_append, Bytes.length_littleEndian]
  omega

/-- No record is shorter than the prefix, the kind, an id and the checksum: `25` bytes. -/
theorem encodedLength_ge (r : Record) : 25 ≤ r.encodedLength := by
  cases r <;> simp only [encodedLength] <;> omega

theorem bytes_ne_nil (r : Record) : r.bytes ≠ [] := by
  intro h
  have hlen := r.length_bytes
  have hge := r.encodedLength_ge
  simp [h] at hlen
  omega

/-! ### Reading what was written -/

theorem field_append {n : Nat} {front : Bytes} (h : front.length = n) (rest : Bytes) :
    field n (front ++ rest) = .ok (front, rest) := by
  simp [field, Bytes.split?_append_of_length h]

theorem idField_append (id : BatchId) (rest : Bytes) :
    idField (id.bytes ++ rest) = .ok (id, rest) := by
  simp [idField, field_append id.length_eq]

theorem wordField_append {n w : Nat} (h : w < Bytes.wordCount n) (rest : Bytes) :
    wordField n (Bytes.littleEndian n w ++ rest) = .ok (w, rest) := by
  simp [wordField, field_append, Bytes.ofLittleEndian_littleEndian_of_lt h]

/-- The payload of an entry that `Fits` has a length of 32 bits. -/
theorem length_payload_lt {e : Entry} (h : (put e).Fits) :
    e.payload.length < Bytes.wordCount 4 := by
  have h' : 4 + 1 + (32 + e.payload.length) + 4 - 4 ≤ 64 * 1024 * 1024 := h
  rw [Bytes.wordCount_four]
  unfold UInt32.size
  omega

/-- `ofContent` inverts `content` on a record that `Fits`. -/
theorem ofContent_content {r : Record} (h : r.Fits) : ofContent r.content = .ok r := by
  cases r with
  -- The words are wide enough for what stands in them, so that each field is read back.
  | put e =>
    have hmicros : e.written.micros.toNat < Bytes.wordCount 8 := by
      rw [Bytes.wordCount_eight]
      exact e.written.micros.toNat_lt
    have hversion : e.version.number.toNat < Bytes.wordCount 4 := by
      rw [Bytes.wordCount_four]
      exact e.version.number.toNat_lt
    have hlength := length_payload_lt h
    have hbody : ∀ front : Bytes, min e.payload.length ((front ++ e.payload).length + 1)
        = e.payload.length := by
      intro front
      simp only [List.length_append]
      omega
    have hpayload : field e.payload.length e.payload = .ok (e.payload, []) := by
      simpa using field_append (rfl : e.payload.length = _) []
    simp only [content, ofContent, ofBody, if_pos]
    simp only [idField_append, wordField_append hmicros, wordField_append hversion,
      wordField_append hlength, bind, Except.bind]
    rw [← List.append_assoc, ← List.append_assoc, ← List.append_assoc, hbody, hpayload]
    simp [pure, Except.pure]
  | delete id =>
    have hid : idField id.bytes = .ok (id, []) := by simpa using idField_append id []
    simp [content, ofContent, ofBody, hid, bind, Except.bind, pure, Except.pure]

/-- What the prefix of a record says, for every length up to `maxFramed`. -/
theorem ofLittleEndian_prefix {n : Nat} (h : n ≤ maxFramed) :
    Bytes.ofLittleEndian (Bytes.littleEndian 4 n) = n := by
  apply Bytes.ofLittleEndian_littleEndian_of_lt
  rw [Bytes.wordCount_four]
  unfold maxFramed at h
  unfold UInt32.size
  omega

/-- **Bytes behind a prefix `n` that tells their length** are a record if the last four are the
    checksum of the others, and these are the content of one. -/
theorem decode_framed {n : Nat} {content stored : Bytes} (hmin : 5 ≤ n) (hmax : n ≤ maxFramed)
    (hlength : content.length + 4 = n) (hstored : stored.length = 4) (rest : Bytes) :
    decode (Bytes.littleEndian 4 n ++ (content ++ stored) ++ rest)
      = if UInt32.ofNat (Bytes.ofLittleEndian stored) = Crc32.checksum content then
          (ofContent content).map fun r => (r, 4 + n)
        else .error (.checksumMismatch (UInt32.ofNat (Bytes.ofLittleEndian stored))
          (Crc32.checksum content)) := by
  have hframed : (content ++ stored).length = n := by
    rw [List.length_append, hstored, hlength]
  have hcut : n - 4 = content.length := by omega
  rw [List.append_assoc]
  simp only [decode, Bytes.split?_append_of_length (Bytes.length_littleEndian 4 n),
    ofLittleEndian_prefix hmax]
  rw [if_neg (by omega), if_neg (by omega), Bytes.split?_append_of_length hframed]
  simp only [hcut, List.take_left, List.drop_left]
  cases ofContent content <;> rfl

/-- **A framed record is found** by `decode` whatever stands behind it. -/
theorem decode_bytes_append {r : Record} (h : r.Fits) (rest : Bytes) :
    decode (r.bytes ++ rest) = .ok (r, r.encodedLength) := by
  have hcontent := r.length_content
  have hge := r.encodedLength_ge
  rw [bytes, decode_framed (by omega) h (by omega) (Bytes.length_littleEndian _ _),
    if_pos (Bytes.ofNat_ofLittleEndian_toNat _), ofContent_content h]
  simp only [Except.map, Except.ok.injEq, Prod.mk.injEq, true_and]
  omega

/-- **A framed record that is cut short** is `insufficientData`. -/
theorem decode_torn {r : Record} (h : r.Fits) {torn : Bytes} (hbegins : torn <+: r.bytes)
    (hne : torn ≠ r.bytes) : decode torn = .error .insufficientData := by
  obtain ⟨missing, hmissing⟩ := hbegins
  have hlength : torn.length < r.encodedLength := by
    rw [← r.length_bytes, ← hmissing, List.length_append]
    have : missing ≠ [] := by
      rintro rfl
      exact hne (by simpa using hmissing)
    have := List.length_pos_iff.2 this
    omega
  have hge := r.encodedLength_ge
  by_cases hshort : torn.length < 4
  · simp [decode, Bytes.split?_eq_none_iff.2 hshort]
  · -- The prefix is whole, so the length it announces is that of the record.
    obtain ⟨front, rest, rfl, hfront⟩ : ∃ front rest, torn = front ++ rest ∧ front.length = 4 :=
      ⟨torn.take 4, torn.drop 4, (List.take_append_drop 4 torn).symm, by simp; omega⟩
    have hword : front = Bytes.littleEndian 4 (r.encodedLength - 4) := by
      have := congrArg (List.take 4) hmissing
      rw [List.append_assoc, List.take_left' hfront, bytes,
        List.take_left' (Bytes.length_littleEndian _ _)] at this
      exact this
    have hrest : rest.length < r.encodedLength - 4 := by
      simp only [List.length_append, hfront] at hlength
      omega
    simp only [decode, Bytes.split?_append_of_length hfront]
    rw [hword, ofLittleEndian_prefix h]
    rw [if_neg (by omega), if_neg (Nat.not_lt.2 h), Bytes.split?_eq_none_iff.2 hrest]

/-! ### Writing what was read -/

theorem field_eq_ok {n : Nat} {bs front rest : Bytes} (h : field n bs = .ok (front, rest)) :
    bs = front ++ rest ∧ front.length = n := by
  unfold field at h
  split at h
  · rename_i p hp
    simp only [Except.ok.injEq] at h
    subst h
    exact Bytes.split?_eq_some_iff.1 hp
  · simp at h

theorem idField_eq_ok {bs rest : Bytes} {id : BatchId} (h : idField bs = .ok (id, rest)) :
    bs = id.bytes ++ rest := by
  unfold idField at h
  split at h
  · simp at h
  · rename_i front rest' hfield
    obtain ⟨rfl, hfront⟩ := field_eq_ok hfield
    simp only [BatchId.ofBytes?, hfront, dif_pos, Except.ok.injEq, Prod.mk.injEq] at h
    obtain ⟨rfl, rfl⟩ := h
    rfl

theorem wordField_eq_ok {n w : Nat} {bs rest : Bytes} (h : wordField n bs = .ok (w, rest)) :
    bs = Bytes.littleEndian n w ++ rest ∧ w < Bytes.wordCount n := by
  unfold wordField at h
  split at h
  · simp at h
  · rename_i front rest' hfield
    obtain ⟨rfl, hfront⟩ := field_eq_ok hfield
    simp only [Except.ok.injEq, Prod.mk.injEq] at h
    obtain ⟨rfl, rfl⟩ := h
    subst hfront
    exact ⟨by rw [Bytes.littleEndian_ofLittleEndian], Bytes.ofLittleEndian_lt front⟩

theorem bind_eq_ok_iff {ε α β : Type} {x : Except ε α} {f : α → Except ε β} {b : β} :
    x >>= f = .ok b ↔ ∃ a, x = .ok a ∧ f a = .ok b := by
  cases x with
  | error e => simp [bind, Except.bind]
  | ok a => simp [bind, Except.bind]

/-- The body of a put is an id, three words and a payload. -/
theorem content_of_putBody {body rest : Bytes} {r : Record} (h : ofBody 1 body = .ok (r, rest)) :
    1 :: body = r.content ++ rest := by
  simp only [ofBody, if_pos, bind_eq_ok_iff, Prod.exists] at h
  obtain ⟨id, rest₁, hid, micros, rest₂, hmicros, version, rest₃, hversion, length, rest₄, hlength,
    payload, rest₅, hpayload, h⟩ := h
  simp only [pure, Except.pure, Except.ok.injEq, Prod.mk.injEq] at h
  obtain ⟨rfl, rfl⟩ := h
  have hbody := idField_eq_ok hid
  obtain ⟨rfl, hm⟩ := wordField_eq_ok hmicros
  obtain ⟨rfl, hv⟩ := wordField_eq_ok hversion
  obtain ⟨rfl, -⟩ := wordField_eq_ok hlength
  obtain ⟨rfl, hp⟩ := field_eq_ok hpayload
  -- The payload was found, so its length is not the one that stands for "beyond the body".
  have hpl : payload.length = length := by
    subst hbody
    simp only [List.length_append, Bytes.length_littleEndian] at hp
    omega
  have hm' : (UInt64.ofNat micros).toNat = micros := by
    rw [UInt64.toNat_ofNat']
    exact Nat.mod_eq_of_lt hm
  have hv' : (UInt32.ofNat version).toNat = version := by
    rw [UInt32.toNat_ofNat']
    exact Nat.mod_eq_of_lt hv
  simp [content, hbody, hm', hv', hpl]

/-- The body of a delete is an id. -/
theorem content_of_deleteBody {body rest : Bytes} {r : Record}
    (h : ofBody 2 body = .ok (r, rest)) : 2 :: body = r.content ++ rest := by
  have hne : ¬ (2 : UInt8) = 1 := by decide
  simp only [ofBody, if_neg hne, if_pos, bind_eq_ok_iff, Prod.exists] at h
  obtain ⟨id, rest₁, hid, h⟩ := h
  simp only [pure, Except.pure, Except.ok.injEq, Prod.mk.injEq] at h
  obtain ⟨rfl, rfl⟩ := h
  simp [content, idField_eq_ok hid]

/-- What `ofContent` reads as a record is the `content` of that record. -/
theorem content_of_ofContent {c : Bytes} {r : Record} (h : ofContent c = .ok r) :
    c = r.content := by
  cases c with
  | nil => simp [ofContent] at h
  | cons kind body =>
    simp only [ofContent] at h
    split at h
    · simp at h
    · rename_i r' hbody
      simp only [Except.ok.injEq] at h
      subst h
      -- The kind byte tells the body; another kind was refused.
      by_cases hput : kind = 1
      · subst hput
        simpa using content_of_putBody hbody
      · by_cases hdelete : kind = 2
        · subst hdelete
          simpa using content_of_deleteBody hbody
        · simp [ofBody, hput, hdelete, throw, throwThe, MonadExceptOf.throw] at hbody
    · simp at h

/-- Bytes in which `decode` finds a record begin with its framed form. -/
theorem prefix_of_decode {bs : Bytes} {r : Record} {n : Nat} (h : decode bs = .ok (r, n)) :
    r.Fits ∧ n = r.encodedLength ∧ r.bytes <+: bs := by
  unfold decode at h
  split at h
  · simp at h
  · rename_i front rest hfront
    -- From the front: the length, the framed bytes, the checksum, the content.
    obtain ⟨rfl, hfour⟩ := Bytes.split?_eq_some_iff.1 hfront
    have hword : front = Bytes.littleEndian 4 (Bytes.ofLittleEndian front) := by
      rw [← hfour, Bytes.littleEndian_ofLittleEndian]
    generalize Bytes.ofLittleEndian front = length at h hword
    simp only at h
    split at h
    · simp at h
    · split at h
      · simp at h
      · rename_i hmin hmax
        split at h
        · simp at h
        · rename_i framed more hframed
          obtain ⟨rfl, hlen⟩ := Bytes.split?_eq_some_iff.1 hframed
          split at h
          · rename_i hcrc
            split at h
            · simp at h
            · rename_i r' hcontent
              simp only [Except.ok.injEq, Prod.mk.injEq] at h
              obtain ⟨rfl, rfl⟩ := h
              have hc := content_of_ofContent hcontent
              have hcl := r'.length_content
              have htake : (framed.take (length - 4)).length = length - 4 := by
                rw [List.length_take]
                omega
              rw [hc] at htake hcrc
              -- The stored word is the last four bytes, so that writing the checksum gives these
              -- back.
              have htail : Bytes.littleEndian 4 (Crc32.checksum r'.content).toNat
                  = framed.drop (length - 4) := by
                have hdrop : (framed.drop (length - 4)).length = 4 := by
                  rw [List.length_drop]
                  omega
                have hlt := Bytes.ofLittleEndian_lt (framed.drop (length - 4))
                rw [hdrop, Bytes.wordCount_four] at hlt
                rw [← hcrc, UInt32.toNat_ofNat', Nat.mod_eq_of_lt hlt]
                simpa only [hdrop] using
                  Bytes.littleEndian_ofLittleEndian (framed.drop (length - 4))
              have hlength : r'.encodedLength - 4 = length := by omega
              refine ⟨?_, by omega, more, ?_⟩
              · unfold Fits
                omega
              · rw [bytes, hlength, htail, ← hc, List.take_append_drop, ← hword, List.append_assoc]
          · simp at h

/-- **`decode` finds a record** exactly where its framed form stands. -/
theorem decode_eq_ok_iff {bs : Bytes} {r : Record} {n : Nat} :
    decode bs = .ok (r, n) ↔ r.Fits ∧ n = r.encodedLength ∧ r.bytes <+: bs := by
  constructor
  · exact prefix_of_decode
  · rintro ⟨hfits, rfl, rest, rfl⟩
    exact decode_bytes_append hfits rest

/-! ### A prefix code -/

/-- `encode` refuses a record as `tooLarge` only, and says the size. -/
theorem encode_eq_error_iff {r : Record} {e : FormatError} :
    r.encode = .error e ↔
      maxFramed < r.encodedLength - 4 ∧ e = .tooLarge (r.encodedLength - 4) := by
  have hfits : r.Fits ↔ ¬ maxFramed < r.encodedLength - 4 := Nat.not_lt.symm
  rw [encode_eq]
  by_cases h : maxFramed < r.encodedLength - 4
  · rw [if_neg (fun hf => hfits.1 hf h), Except.error.injEq]
    exact ⟨fun he => ⟨h, he.symm⟩, fun he => he.2.symm⟩
  · rw [if_pos (hfits.2 h)]
    exact ⟨fun he => absurd he (by simp), fun he => absurd he.1 h⟩

/-- What `decode` took from the front of its bytes is what `encode` makes of the record. -/
theorem encode_of_decode {bs : Bytes} {r : Record} {n : Nat} (h : decode bs = .ok (r, n)) :
    n ≤ bs.length ∧ r.encode = .ok (bs.take n) := by
  obtain ⟨hfits, rfl, rest, rfl⟩ := prefix_of_decode h
  refine ⟨?_, ?_⟩
  · rw [List.length_append, length_bytes]
    omega
  · rw [encode_of_fits hfits, ← r.length_bytes, List.take_left]

/-- No record's bytes begin with those of another. -/
theorem eq_of_encode_append {r r' : Record} {bs rest : Bytes} (h : r.encode = .ok bs)
    (h' : r'.encode = .ok (bs ++ rest)) : r = r' := by
  obtain ⟨hfits, rfl⟩ := encode_eq_ok_iff.1 h
  obtain ⟨hfits', hbytes⟩ := encode_eq_ok_iff.1 h'
  have hfirst := decode_bytes_append hfits rest
  have hwhole := decode_bytes_append hfits' []
  rw [List.append_nil, hbytes, hfirst] at hwhole
  simp only [Except.ok.injEq, Prod.mk.injEq] at hwhole
  exact hwhole.1

/-- **The record format is a prefix code** on which writer and reader agree.  A record is refused,
    with its framed length, exactly when that length exceeds the limit.  Every other has bytes of
    the length it announces: with anything behind them they read as the record, and cut short
    anywhere they read as not yet enough.  The bytes of no record begin with those of another.  And
    wherever a record is read, at whatever count of bytes, it is one that can be written, and those
    bytes are what is written for it. -/
theorem prefix_code (r : Record) :
    (∀ e, r.encode = .error e ↔
      maxFramed < r.encodedLength - 4 ∧ e = .tooLarge (r.encodedLength - 4))
    ∧ (r.encodedLength - 4 ≤ maxFramed → ∃ bs, r.encode = .ok bs
      ∧ bs.length = r.encodedLength
      ∧ (∀ rest, decode (bs ++ rest) = .ok (r, r.encodedLength))
      ∧ (∀ torn, torn <+: bs → torn ≠ bs → decode torn = .error .insufficientData)
      ∧ ∀ r' rest, r'.encode = .ok (bs ++ rest) → r = r')
    ∧ ∀ bs n, decode bs = .ok (r, n) → n ≤ bs.length ∧ r.encode = .ok (bs.take n) := by
  refine ⟨fun e => encode_eq_error_iff, ?_, fun bs n => encode_of_decode⟩
  intro hfits
  have hbytes : r.encode = .ok r.bytes := encode_of_fits hfits
  exact ⟨r.bytes, hbytes, r.length_bytes, decode_bytes_append hfits,
    fun torn => decode_torn hfits, fun r' rest => eq_of_encode_append hbytes⟩

/-- The largest payload that can be written comes back, and one byte more is refused. -/
theorem prefix_code_largest :
    let entry (length : Nat) : Record :=
      put ⟨default, ⟨7⟩, ⟨1⟩, List.replicate length 255⟩
    (∃ bs, (entry (maxFramed - 37)).encode = .ok bs ∧ bs.length = maxFramed + 4
      ∧ decode (bs ++ [1, 2]) = .ok (entry (maxFramed - 37), maxFramed + 4)
      ∧ decode (bs.take (maxFramed + 3)) = .error .insufficientData)
    ∧ (entry (maxFramed - 36)).encode = .error (.tooLarge (maxFramed + 1)) := by
  intro entry
  have hlength : ∀ n, (entry n).encodedLength = n + 41 := by
    intro n
    show 4 + 1 + (32 + (List.replicate n (255 : UInt8)).length) + 4 = n + 41
    rw [List.length_replicate]
    omega
  -- 37 bytes are the record's own, so 64 MiB less 37 is the longest payload.
  have hmax : maxFramed - 37 + 41 = maxFramed + 4 := by decide
  have hfits : (entry (maxFramed - 37)).encodedLength - 4 ≤ maxFramed := by
    rw [hlength, hmax]
    omega
  obtain ⟨bs, hbs, hbytes, hreads, htorn, -⟩ := (prefix_code (entry (maxFramed - 37))).2.1 hfits
  rw [hlength, hmax] at hbytes hreads
  refine ⟨⟨bs, hbs, hbytes, hreads [1, 2], htorn _ (List.take_prefix _ _) ?_⟩, ?_⟩
  · intro heq
    have hshort := congrArg List.length heq
    rw [List.length_take, hbytes] at hshort
    omega
  · refine ((prefix_code (entry (maxFramed - 36))).1 _).2 ?_
    rw [hlength]
    decide

end Record

end BatchJournal
