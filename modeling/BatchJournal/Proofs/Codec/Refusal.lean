import BatchJournal.Proofs.Codec.RoundTrip

namespace BatchJournal

/-!
# Neither format reads what the other wrote

The two layouts have no tag that would tell them apart; their counts do.  A fixed-width payload
announces no more mutations than it has bytes for, so its count has three bytes of which the third
is small, and five zeros.  Read as MessagePack it begins with a marker or two made of these, and
then with a small number: no table, byte string or list of edits begins so.  Hence no payload is one
of both formats, and what one of them wrote the other one refuses.

* `Reader.Costs` — a reader takes so many bytes at least.
* `MutationSet.FixedFront` — how a fixed-width payload goes on behind its first byte.
* `MutationSet.readMutation_eq_none` — no mutation begins so.
* `Format.not_both` — no payload is one of both formats.
* `Format.refuse_each_other` — neither format reads what the other wrote.
-/

/-! ### What a reader costs -/

namespace Reader

variable {α β : Type} {r : Reader α} {least more : Nat}

/-- **What a reader costs:** `r.Costs least` if it takes `least` bytes at least whenever it gives
    `some`. -/
def Costs (r : Reader α) (least : Nat) : Prop :=
  ∀ (bs : Bytes) (a : α) (rest : Bytes), r bs = some (a, rest) → rest.length + least ≤ bs.length

theorem Costs.pure (a : α) : (pure a : Reader α).Costs 0 := by
  intro bs a' rest h
  obtain ⟨-, rfl⟩ := Prod.mk.inj (Option.some.inj h)
  exact Nat.le_refl _

theorem Costs.fail : (fail : Reader α).Costs least := fun _ _ _ h => nomatch h

/-- A reader and the one that goes on after it: `r >>= f` costs `least + more`. -/
theorem Costs.bind {f : α → Reader β} (h : r.Costs least) (h' : ∀ a, (f a).Costs more) :
    (r >>= f).Costs (least + more) := by
  intro bs b rest hread
  obtain ⟨⟨a, middle⟩, hfirst, hsecond⟩ := Option.bind_eq_some_iff.1 hread
  have hle := h _ _ _ hfirst
  have hle' := h' a _ _ _ hsecond
  omega

/-- `r >>= f` costs what `r` does, if `f` need cost nothing. -/
theorem Costs.bind_any {f : α → Reader β} (h : r.Costs least) (h' : ∀ a, (f a).Costs 0) :
    (r >>= f).Costs least := h.bind h'

theorem Costs.mono (h : r.Costs least) (hle : more ≤ least) : r.Costs more :=
  fun bs a rest hread => Nat.le_trans (Nat.add_le_add_left hle _) (h bs a rest hread)

theorem costs_take (n : Nat) : (take n).Costs n := by
  intro bs front rest h
  obtain ⟨rfl, hlength⟩ := Bytes.split?_eq_some_iff.1 h
  rw [List.length_append]
  omega

theorem costs_little (width : Nat) : (little width).Costs width :=
  (costs_take width).bind_any fun _ => .pure _

theorem costs_ofOption (a : Option α) : (ofOption a).Costs 0 := by
  cases a with
  | none => exact .fail
  | some a => exact .pure a

theorem costs_text (n : Nat) : (text n).Costs 0 :=
  ((costs_take n).mono (Nat.zero_le n)).bind fun _ => costs_ofOption _

/-- **Many times over** a reader costs as many times as much: `r.times n` costs `n * least`. -/
theorem Costs.times (h : r.Costs least) (n : Nat) : (r.times n).Costs (n * least) := by
  induction n with
  | zero =>
    intro bs as rest hread
    rw [times_zero] at hread
    obtain ⟨-, rfl⟩ := Prod.mk.inj (Option.some.inj hread)
    omega
  | succ n ih =>
    intro bs as rest hread
    rw [times_succ] at hread
    split at hread
    · simp at hread
    · rename_i a middle hfirst
      obtain ⟨⟨as', rest'⟩, hmore, heq⟩ := Option.map_eq_some_iff.1 hread
      obtain ⟨-, rfl⟩ := Prod.mk.inj heq
      have hle := h _ _ _ hfirst
      have hle' := ih _ _ _ hmore
      rw [Nat.succ_mul]
      omega

end Reader

open Reader

/-! ### The count of a fixed-width payload -/

namespace FixedWidth

theorem costs_readText : readText.Costs 8 := (costs_little 8).bind_any fun n => costs_text n

theorem costs_readBlob : readBlob.Costs 8 :=
  (costs_little 8).bind_any fun n => (costs_take n).mono (Nat.zero_le n)

theorem costs_readEdit : readEdit.Costs 4 := by
  refine (costs_little 4).bind_any fun kind => ?_
  have htext : readText.Costs 0 := costs_readText.mono (Nat.zero_le 8)
  have hblob : readBlob.Costs 0 := costs_readBlob.mono (Nat.zero_le 8)
  split
  · exact htext.bind_any fun _ => htext.bind_any fun _ => hblob.bind_any fun _ => .pure _
  · exact htext.bind_any fun _ => htext.bind_any fun _ => .pure _
  · exact .pure _
  · exact .fail

/-- A mutation has three lengths and a count at least, each eight bytes wide: 32 bytes. -/
theorem costs_readMutation : readMutation.Costs 32 := by
  have hedits : ∀ n, (readEdit.times n).Costs 0 := fun n =>
    (costs_readEdit.times n).mono (Nat.zero_le _)
  exact costs_readText.bind fun _ => costs_readText.bind fun _ => costs_readBlob.bind fun _ =>
    (costs_little 8).bind_any fun n => (hedits n).bind_any fun _ => .pure _

/-- **A mutation set has as many bytes** as its count announces mutations, `32` for each. -/
theorem length_of_mutations {bs rest : Bytes} {ms : List Mutation}
    (h : mutations bs = some (ms, rest)) :
    8 ≤ bs.length ∧ Bytes.ofLittleEndian (bs.take 8) * 32 + 8 ≤ bs.length := by
  obtain ⟨⟨n, middle⟩, hcount, hread⟩ := Option.bind_eq_some_iff.1 h
  obtain ⟨⟨front, middle'⟩, htake, hword⟩ := Option.bind_eq_some_iff.1 hcount
  obtain ⟨rfl, rfl⟩ := Prod.mk.inj (Option.some.inj hword)
  obtain ⟨rfl, hlength⟩ := Bytes.split?_eq_some_iff.1 htake
  have hle := costs_readMutation.times _ _ _ _ hread
  rw [List.take_left' hlength, List.length_append]
  omega

end FixedWidth

/-! ### Heads -/

/-- What `f <$> r` gives is `f` of what `r` gives. -/
theorem Reader.exists_of_map {α β : Type} {f : α → β} {r : Reader α} {bs rest : Bytes} {b : β}
    (h : (f <$> r) bs = some (b, rest)) : ∃ a, r bs = some (a, rest) ∧ f a = b := by
  obtain ⟨⟨a, rest'⟩, hread, hmap⟩ := Option.bind_eq_some_iff.1 h
  obtain ⟨rfl, rfl⟩ := Prod.mk.inj (Option.some.inj hmap)
  exact ⟨a, hread, rfl⟩

namespace Head

/-- How many values, pairs or bytes follow the head of an `array`, a `map` or a `binary`. -/
def announced : Head → Option Nat
  | .array n | .map n | .binary n => some n
  | _ => none

/-- A byte below the markers is a number: `0x80` is the first that is not. -/
theorem read_small {b : UInt8} (h : b < 0x80) (bs : Bytes) :
    read (b :: bs) = some (.unsigned b.toNat, bs) := by
  have hlt : b.toNat < 0x80 := UInt8.lt_iff_toNat_lt.1 h
  show afterMarker b bs = _
  simp only [afterMarker, if_pos hlt]
  rfl

/-- The word behind the front of some bytes: `big width` leaves `bs.drop width`. -/
theorem big_eq_some {width n : Nat} {bs rest : Bytes} (h : big width bs = some (n, rest)) :
    rest = bs.drop width := by
  obtain ⟨⟨front, rest'⟩, htake, hword⟩ := Option.bind_eq_some_iff.1 h
  obtain ⟨-, rfl⟩ := Prod.mk.inj (Option.some.inj hword)
  obtain ⟨rfl, hlength⟩ := Bytes.split?_eq_some_iff.1 htake
  exact (List.drop_left' hlength).symm

/-- **Where arrays, maps and byte strings begin:** behind the marker, or behind a word of one, two
    or four bytes. So `rest` is `bs.drop k` for such a `k`. -/
theorem rest_of_announced {b : UInt8} {bs rest : Bytes} {head : Head} {n : Nat}
    (h : read (b :: bs) = some (head, rest)) (hn : head.announced = some n) :
    ∃ width ∈ [0, 1, 2, 4], rest = bs.drop width := by
  have hread : afterMarker b bs = some (head, rest) := h
  have hpure : ∀ {head' : Head}, (pure head' : Reader Head) bs = some (head, rest) →
      ∃ width ∈ [0, 1, 2, 4], rest = bs.drop width := fun hpure =>
    ⟨0, by decide, (Prod.mk.inj (Option.some.inj hpure)).2.symm⟩
  have hword : ∀ {width : Nat} {kind : Nat → Head}, width ∈ [0, 1, 2, 4] →
      (kind <$> big width) bs = some (head, rest) →
      ∃ width ∈ [0, 1, 2, 4], rest = bs.drop width := by
    intro width kind hwidth hmap
    obtain ⟨m, hbig, -⟩ := exists_of_map hmap
    exact ⟨width, hwidth, big_eq_some hbig⟩
  have hother : ∀ {α : Type} {kind : α → Head} {r : Reader α}, (∀ a, (kind a).announced = none) →
      (kind <$> r) bs = some (head, rest) → ∃ width ∈ [0, 1, 2, 4], rest = bs.drop width := by
    intro α kind r hkind hmap
    obtain ⟨a, -, rfl⟩ := exists_of_map hmap
    exact nomatch (hkind a).symm.trans hn
  -- One case for each marker.
  unfold afterMarker at hread
  generalize b.toNat = marker at hread
  repeat' split at hread
  all_goals first
    | exact hpure hread
    | exact hother (fun _ => rfl) hread
    | exact hword (by decide) hread
    | exact nomatch (show none = some (head, rest) from hread)

/-- The byte `0` is a whole value that `skip` passes over. -/
theorem skip_zero (levels : Nat) (bs : Bytes) : skip levels (0 :: bs) = some ((), bs) := by
  cases levels <;> rfl

end Head

namespace MutationSet

/-! ### Fixed-width read as MessagePack -/

/-- The count at the front of a fixed-width payload, as far as a marker in it can reach: a byte, one
    below `0x80`, and zeros. -/
def FixedFront (bs : Bytes) : Prop :=
  ∃ low high data, high < 0x20 ∧ bs = low :: high :: 0 :: 0 :: 0 :: 0 :: 0 :: data

section Structures

variable {σ : Type} {levels : Nat} {names : List String} {start : σ} {field : σ → Nat → Reader σ}

/-- A sequence does not begin with a number: `readSequence` fails on a byte below `0x80`. -/
theorem readSequence_small {α : Type} (element : Reader α) {b : UInt8} (hb : b < 0x80)
    (bs : Bytes) : readSequence element (b :: bs) = none := by
  show (Head.read (b :: bs)).bind _ = none
  rw [Head.read_small hb]
  rfl

/-- A byte string does not begin with a number: `readBlob` fails on a byte below `0x80`. -/
theorem readBlob_small {b : UInt8} (hb : b < 0x80) (bs : Bytes) : readBlob (b :: bs) = none := by
  show (Head.read (b :: bs)).bind _ = none
  rw [Head.read_small hb]
  rfl

/-- A structure does not begin with a number: `readStructure` fails on a byte below `0x80`. -/
theorem readStructure_small {b : UInt8} (hb : b < 0x80) (bs : Bytes) :
    readStructure levels names start field (b :: bs) = none := by
  show (Head.read (b :: bs)).bind _ = none
  rw [Head.read_small hb]
  rfl

/-- One pair of a map: its key, and `field` or, if the key names nothing, a value that `skip` passes
    over. -/
def readPair (levels : Nat) (names : List String) (field : σ → Nat → Reader σ) (s : σ) :
    Reader σ := do
  match ← readKey names with
  | some i => field s i
  | none => Head.skip (levels - 1); return s

/-- A structure is an `array` of its fields or a `map` of pairs, each read by `readPair`. -/
theorem readStructure_cases {bs rest : Bytes} {s : σ}
    (h : readStructure levels names start field bs = some (s, rest)) :
    (∃ body, Head.read bs = some (.array names.length, body)
        ∧ (List.range names.length).foldlM field start body = some (s, rest))
      ∨ ∃ n body, Head.read bs = some (.map n, body)
        ∧ Reader.fold (readPair levels names field) start n body = some (s, rest) := by
  obtain ⟨⟨head, body⟩, hhead, hbody⟩ := Option.bind_eq_some_iff.1 h
  cases head with
  | array n =>
    change (if n = names.length then _ else fail : Reader σ) body = _ at hbody
    split at hbody
    · rename_i hlength
      subst hlength
      exact .inl ⟨body, hhead, hbody⟩
    · exact nomatch (show none = some (s, rest) from hbody)
  | map n => exact .inr ⟨n, body, hhead, hbody⟩
  | _ => exact nomatch (show none = some (s, rest) from hbody)

/-- A key that is a number `b` is the place `b.toNat`, if there are so many `names`. -/
theorem readKey_small {b : UInt8} (hb : b < 0x80) (bs : Bytes) : readKey names (b :: bs)
    = some (if b.toNat < names.length then some b.toNat else none, bs) := by
  show (Head.read (b :: bs)).bind _ = _
  rw [Head.read_small hb]
  rfl

/-- A pair whose key is a number that names a field: `readPair` is `field s b.toNat`. -/
theorem readPair_known {b : UInt8} (hb : b < 0x80) (hknown : b.toNat < names.length) (s : σ)
    (bs : Bytes) : readPair levels names field s (b :: bs) = field s b.toNat bs := by
  show (readKey names (b :: bs)).bind _ = _
  rw [readKey_small hb, if_pos hknown]
  rfl

/-- A pair whose key is a number that names nothing and whose value is `0`: the state `s` stays. -/
theorem readPair_unknown {b : UInt8} (hb : b < 0x80) (hunknown : ¬ b.toNat < names.length) (s : σ)
    (bs : Bytes) : readPair levels names field s (b :: 0 :: bs) = some (s, bs) := by
  show (readKey names (b :: 0 :: bs)).bind _ = _
  rw [readKey_small hb, if_neg hunknown]
  show (Head.skip (levels - 1) (0 :: bs)).bind _ = _
  rw [Head.skip_zero]
  rfl

/-- **Pairs of zeros** hold no field: key `0` names the first one, which `hfield` says does not
    begin with `0`. -/
theorem eq_of_fold_zeros (hnames : 0 < names.length)
    (hfield : ∀ s i b bs, b < 0x80 → field s i (b :: bs) = none) {n : Nat} {bs rest : Bytes}
    {s : σ}
    (h : Reader.fold (readPair levels names field) start n (0 :: 0 :: bs) = some (s, rest)) :
    s = start := by
  cases n with
  | zero => exact (Prod.mk.inj (Option.some.inj h)).1.symm
  | succ n =>
    have hpair : readPair levels names field start (0 :: 0 :: bs) = none := by
      rw [readPair_known (b := 0) (by decide) hnames]
      exact hfield _ _ _ _ (by decide)
    simp only [Reader.fold, hpair] at h
    exact nomatch h

/-- The first key may be another number `b`, as in `eq_of_fold_zeros`. -/
theorem eq_of_fold_small (hnames : 0 < names.length)
    (hfield : ∀ s i b bs, b < 0x80 → field s i (b :: bs) = none) {n : Nat} {b : UInt8}
    (hb : b < 0x80) {bs rest : Bytes} {s : σ}
    (h : Reader.fold (readPair levels names field) start n (b :: 0 :: 0 :: 0 :: bs)
      = some (s, rest)) : s = start := by
  cases n with
  | zero => exact (Prod.mk.inj (Option.some.inj h)).1.symm
  | succ n =>
    by_cases hknown : b.toNat < names.length
    · have hpair : readPair levels names field start (b :: 0 :: 0 :: 0 :: bs) = none := by
        rw [readPair_known hb hknown]
        exact hfield _ _ _ _ (by decide)
      simp only [Reader.fold, hpair] at h
      exact nomatch h
    · simp only [Reader.fold, readPair_unknown hb hknown] at h
      exact eq_of_fold_zeros hnames hfield h

/-- An array of fields fails with its first one. -/
theorem foldlM_small (hnames : 0 < names.length) {bs : Bytes} (h : field start 0 bs = none) :
    (List.range names.length).foldlM field start bs = none := by
  obtain ⟨k, hk⟩ := Nat.exists_eq_succ_of_ne_zero (Nat.ne_of_gt hnames)
  rw [hk, List.range_succ_eq_map, List.foldlM_cons]
  show (field start 0 bs).bind _ = none
  rw [h]
  rfl

/-- **No field can be read** of a structure that begins as `FixedFront` says, if `hfield` says that
    no field begins with a number: the state is still `start`. -/
theorem eq_of_readStructure (hnames : 0 < names.length)
    (hfield : ∀ s i b bs, b < 0x80 → field s i (b :: bs) = none) {bs rest : Bytes} {s : σ}
    (hfront : FixedFront bs) (h : readStructure levels names start field bs = some (s, rest)) :
    s = start := by
  obtain ⟨low, high, data, hhigh, rfl⟩ := hfront
  have hsmall : high < 0x80 := UInt8.lt_trans hhigh (by decide)
  rcases readStructure_cases h with ⟨body, hhead, hbody⟩ | ⟨n, body, hhead, hbody⟩
  · -- An array of fields cannot begin with a small byte: its first field does not.
    have hnone : ∀ {b : UInt8}, b < 0x80 → ∀ bs, body ≠ b :: bs := by
      rintro b hb bs rfl
      rw [foldlM_small hnames (hfield start 0 b bs hb)] at hbody
      exact nomatch hbody
    obtain ⟨width, hwidth, hrest⟩ := Head.rest_of_announced hhead rfl
    simp only [List.mem_cons, List.not_mem_nil, or_false] at hwidth
    rcases hwidth with rfl | rfl | rfl | rfl
    · exact absurd hrest (hnone hsmall _)
    all_goals exact absurd hrest (hnone (b := 0) (by decide) _)
  · -- A map may go on behind its head with the zeros, or with the small byte as its first key.
    obtain ⟨width, hwidth, rfl⟩ := Head.rest_of_announced hhead rfl
    simp only [List.mem_cons, List.not_mem_nil, or_false] at hwidth
    rcases hwidth with rfl | rfl | rfl | rfl
    · exact eq_of_fold_small hnames hfield hsmall hbody
    all_goals exact eq_of_fold_zeros hnames hfield hbody

end Structures

/-- A field whose `value` cannot be read is not read `once` either. -/
theorem once_eq_none {α : Type} {value : Reader α} {bs : Bytes} (h : value bs = none)
    (former : Option α) : once former value bs = none := by
  cases former with
  | none =>
    show (value bs).bind _ = none
    rw [h]
    rfl
  | some _ => rfl

/-- A table does not begin with a number: `readTable` fails on a byte below `0x80`. -/
theorem readTable_small (levels : Nat) {b : UInt8} (hb : b < 0x80) (bs : Bytes) :
    readTable levels (b :: bs) = none := by
  show (readStructure _ _ _ _ (b :: bs)).bind _ = none
  rw [readStructure_small hb]
  rfl

/-- **No mutation** begins with a number or as `FixedFront` says: `readMutation` fails. -/
theorem readMutation_eq_none (levels : Nat) {bs : Bytes}
    (h : FixedFront bs ∨ ∃ b data, b < 0x80 ∧ bs = b :: data) : readMutation levels bs = none := by
  rw [Option.eq_none_iff_forall_ne_some]
  rintro ⟨m, rest⟩ hread
  obtain ⟨⟨⟨table, key, edits⟩, rest'⟩, hstructure, hfields⟩ := Option.bind_eq_some_iff.1 hread
  rcases h with hfront | ⟨b, data, hb, rfl⟩
  · -- No pair and no element is a field, so the state is empty and the table is missing.
    have hnothing : (table, key, edits) = (none, none, none) := by
      refine eq_of_readStructure (by decide) ?_ hfront hstructure
      rintro ⟨table, key, edits⟩ i b bs hb
      match i with
      | 0 =>
        show (once table _ (b :: bs)).bind _ = none
        rw [once_eq_none (readTable_small _ hb bs)]
        rfl
      | 1 =>
        show (once key _ (b :: bs)).bind _ = none
        rw [once_eq_none (readBlob_small hb bs)]
        rfl
      | _ + 2 =>
        show (once edits _ (b :: bs)).bind _ = none
        rw [once_eq_none (readSequence_small _ hb bs)]
        rfl
    obtain ⟨rfl, rfl, rfl⟩ : table = none ∧ key = none ∧ edits = none := by simpa using hnothing
    exact nomatch hfields
  · rw [readStructure_small hb] at hstructure
    exact nomatch hstructure

/-- What follows the head of a sequence is `FixedFront`, or begins with a number, if the bytes after
    the marker are `FixedFront`. -/
theorem front_of_announced {b : UInt8} {bs body : Bytes} {head : Head} {n : Nat}
    (hfront : FixedFront bs) (hhead : Head.read (b :: bs) = some (head, body))
    (hn : head.announced = some n) :
    body ≠ [] ∧ (FixedFront body ∨ ∃ b data, b < 0x80 ∧ body = b :: data) := by
  obtain ⟨width, hwidth, rfl⟩ := Head.rest_of_announced hhead hn
  obtain ⟨low, high, data, hhigh, rfl⟩ := hfront
  have hsmall : high < 0x80 := UInt8.lt_trans hhigh (by decide)
  simp only [List.mem_cons, List.not_mem_nil, or_false] at hwidth
  rcases hwidth with rfl | rfl | rfl | rfl
  · exact ⟨List.cons_ne_nil _ _, .inl ⟨low, high, data, hhigh, rfl⟩⟩
  · exact ⟨List.cons_ne_nil _ _, .inr ⟨high, _, hsmall, rfl⟩⟩
  · exact ⟨List.cons_ne_nil _ _, .inr ⟨0, _, by decide, rfl⟩⟩
  · exact ⟨List.cons_ne_nil _ _, .inr ⟨0, _, by decide, rfl⟩⟩

/-- **Nothing is read to the end** that is `FixedFront` behind its first byte: an empty sequence
    leaves the rest, and `readMutation_eq_none` refuses every other one. -/
theorem read_ne_whole {b : UInt8} {bs : Bytes} (hfront : FixedFront bs) (ms : List Mutation) :
    read (b :: bs) ≠ some (ms, []) := by
  intro h
  obtain ⟨⟨head, body⟩, hhead, hbody⟩ := Option.bind_eq_some_iff.1 h
  cases head with
  | array n =>
    obtain ⟨hmore, hbarren⟩ := front_of_announced hfront hhead rfl
    change times (readMutation (maxLevels - 1)) n body = some (ms, []) at hbody
    cases n with
    | zero => exact hmore (Prod.mk.inj (Option.some.inj hbody)).2
    | succ n =>
      rw [times_succ, readMutation_eq_none _ hbarren] at hbody
      exact nomatch hbody
  | binary n =>
    obtain ⟨hmore, -⟩ := front_of_announced hfront hhead rfl
    match n, hbody with
    | 0, hbody => exact hmore (Prod.mk.inj (Option.some.inj hbody)).2
    | _ + 1, hbody => exact nomatch (show none = some (ms, []) from hbody)
  | _ => exact nomatch (show none = some (ms, []) from hbody)

end MutationSet

/-- **A fixed-width payload** that a log record can hold is `FixedFront` behind its first byte. -/
theorem FixedWidth.front_of_mutations {bs rest : Bytes} {ms : List Mutation}
    (h : mutations bs = some (ms, rest)) (hlength : bs.length ≤ Record.maxFramed) :
    ∃ b front, bs = b :: front ∧ MutationSet.FixedFront front := by
  obtain ⟨hcounted, hle⟩ := length_of_mutations h
  -- The count is the first word, and it is small: each mutation takes 32 bytes, and there are at
  -- most 64 MiB of them.
  have hword : Bytes.littleEndian 8 (Bytes.ofLittleEndian (bs.take 8)) = bs.take 8 := by
    have hspelled := Bytes.littleEndian_ofLittleEndian (bs.take 8)
    rwa [List.length_take_of_le hcounted] at hspelled
  generalize Bytes.ofLittleEndian (bs.take 8) = n at hle hword
  have hn : n < 32 * 256 * 256 := by
    rw [Record.maxFramed] at hlength
    omega
  have hzero : n / 256 / 256 / 256 = 0 := by omega
  have hsmall : UInt8.ofNat (n / 256 / 256) < 0x20 := by
    rw [UInt8.lt_iff_toNat_lt, UInt8.toNat_ofNat']
    show n / 256 / 256 % 256 < 32
    omega
  refine ⟨UInt8.ofNat n, _, ?_, UInt8.ofNat (n / 256), UInt8.ofNat (n / 256 / 256), bs.drop 8,
    hsmall, rfl⟩
  calc bs
    _ = Bytes.littleEndian 8 n ++ bs.drop 8 := by rw [hword, List.take_append_drop]
    _ = _ := by simp [Bytes.littleEndian, hzero]

namespace Format

/-- What `readWhole` says of a payload that `reader` does not read to the end: `malformed`, with the
    version and the length. -/
theorem malformed_of_readWhole {version : FormatVersion} {reader : Reader (List Mutation)}
    {payload : Bytes} (h : ∀ ms, reader payload ≠ some (ms, [])) :
    ∃ what, readWhole version reader payload = .error (.malformed version payload.length what) := by
  unfold readWhole
  split
  · exact ⟨_, rfl⟩
  · exact absurd ‹_› (h _)
  · exact ⟨_, rfl⟩

/-- If `readWhole` decodes a payload, `reader` reads it to the end. -/
theorem eq_some_of_readWhole {version : FormatVersion} {reader : Reader (List Mutation)}
    {payload : Bytes} {ms : List Mutation} (h : readWhole version reader payload = .ok ms) :
    reader payload = some (ms, []) := by
  unfold readWhole at h
  split at h
  · exact nomatch h
  · obtain rfl := Except.ok.inj h
    assumption
  · exact nomatch h

/-- **No payload is one of both formats,** as far as a log record can hold it:
    `payload.length ≤ Record.maxFramed`. -/
theorem not_both {payload : Bytes} (hlength : payload.length ≤ Record.maxFramed)
    {ms ms' : List Mutation} (hfixed : FixedWidth.mutations payload = some (ms, []))
    (hpack : MutationSet.read payload = some (ms', [])) : False := by
  obtain ⟨b, front, rfl, hfront⟩ := FixedWidth.front_of_mutations hfixed hlength
  exact MutationSet.read_ne_whole hfront ms' hpack

/-- **A format's payloads are refused by another one:** what `f` encodes `g.decode` answers with
    `malformed`, under the version of `g` and with the payload's length. -/
def RefusedBy (f g : Format) : Prop :=
  ∀ ms, ∃ payload, f.encode ms = .ok payload
    ∧ (payload.length ≤ Record.maxFramed →
      ∃ what, g.decode payload = .error (.malformed g.version payload.length what))

/-- **Neither format reads what the other wrote:** `messagePack` and `fixedWidth` can each write
    every mutation set, and what the one wrote is `RefusedBy` the other. -/
theorem refuse_each_other :
    messagePack.RefusedBy fixedWidth ∧ fixedWidth.RefusedBy messagePack := by
  constructor
  · intro ms
    obtain ⟨payload, hencode, hdecode⟩ := roundTrips_messagePack ms
    refine ⟨payload, hencode, fun hlength => malformed_of_readWhole fun ms' hfixed => ?_⟩
    exact not_both hlength hfixed (eq_some_of_readWhole (hdecode hlength))
  · intro ms
    obtain ⟨payload, hencode, hdecode⟩ := roundTrips_fixedWidth ms
    refine ⟨payload, hencode, fun hlength => malformed_of_readWhole fun ms' hpack => ?_⟩
    exact not_both hlength (eq_some_of_readWhole (hdecode hlength)) hpack

/-- The count `0x90` is also the marker of an empty array, and `0x93 0x92` the markers of a
    mutation. Neither deceives the other reader. -/
theorem refuse_each_other_markers :
    (∃ what, messagePack.decode (FixedWidth.encode (List.replicate 0x90 ⟨⟨"", ""⟩, [], []⟩))
      = .error (.malformed ⟨2⟩ 4616 what))
    ∧ ∃ what, fixedWidth.decode (MutationSet.encode [⟨⟨"ks", "t"⟩, [0], [.deletePartition]⟩])
      = .error (.malformed ⟨1⟩ 27 what) := by
  obtain ⟨hpack, hfixed⟩ := refuse_each_other
  constructor
  · obtain ⟨payload, hencode, hrefused⟩ := hfixed (List.replicate 0x90 ⟨⟨"", ""⟩, [], []⟩)
    obtain rfl := Except.ok.inj hencode
    have hlength : (FixedWidth.encode (List.replicate 0x90 ⟨⟨"", ""⟩, [], []⟩)).length = 4616 := by
      decide +kernel
    have hmalformed := hrefused (by rw [hlength]; decide)
    rwa [hlength] at hmalformed
  · obtain ⟨payload, hencode, hrefused⟩ := hpack [⟨⟨"ks", "t"⟩, [0], [.deletePartition]⟩]
    obtain rfl := Except.ok.inj hencode
    exact hrefused (by decide +kernel)

end Format

end BatchJournal
