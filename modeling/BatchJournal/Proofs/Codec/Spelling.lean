import Mathlib.Data.List.Forall2
import Mathlib.Data.List.Nodup
import BatchJournal.Proofs.Codec.Refusal

namespace BatchJournal

/-!
# The spellings of MessagePack

Most heads can be spelled in several widths, a string as text or as bytes, and an integer as one of
an unsigned or of a signed kind.  The spellings are laid down here by the tables of the markers, and
the readers are shown to take every one of them.

* `Head.Spelled` — the spellings of a head.
* `Head.Whole` — the spellings of any value that nests arrays, maps and extensions to some level.
* `Spelling.Text`, `Spelling.Blob`, `Spelling.Key` — the spellings of texts, byte strings and keys.
* `Head.reads_spelled`, `Head.skip_whole` — every spelling is read.
-/

open Reader

namespace Head

/-! ### Heads -/

/-- Heads that are a marker and a word: the marker, the width of the word, and the head of each
    word. -/
def wordForms : List (UInt8 × Nat × (Nat → Head)) :=
  [(0xc4, 1, .binary), (0xc5, 2, .binary), (0xc6, 4, .binary),
    (0xc7, 1, .extension), (0xc8, 2, .extension), (0xc9, 4, .extension),
    (0xcc, 1, .unsigned), (0xcd, 2, .unsigned), (0xce, 4, .unsigned), (0xcf, 8, .unsigned),
    (0xd9, 1, .text), (0xda, 2, .text), (0xdb, 4, .text),
    (0xdc, 2, .array), (0xdd, 4, .array), (0xde, 2, .map), (0xdf, 4, .map)]

/-- Integers of a signed kind: the marker and the width. -/
def signedForms : List (UInt8 × Nat) := [(0xd0, 1), (0xd1, 2), (0xd2, 4), (0xd3, 8)]

/-- Floating-point numbers: the marker and the width. -/
def floatForms : List (UInt8 × Nat) := [(0xca, 4), (0xcb, 8)]

/-- Extensions of a fixed length: the marker and the length. -/
def extensionForms : List (UInt8 × Nat) := [(0xd4, 1), (0xd5, 2), (0xd6, 4), (0xd7, 8), (0xd8, 16)]

/-- **The spellings of a head:** `Spelled bs head` if a writer may put `bs` for `head`, be it the
    shortest form or not. -/
inductive Spelled : Bytes → Head → Prop
  /-- No value. -/
  | nil : Spelled [0xc0] .nil
  /-- A truth value. -/
  | bool (value : Bool) : Spelled [if value then 0xc3 else 0xc2] .bool
  /-- A floating-point number. -/
  | float {marker : UInt8} {width : Nat} {bits : Bytes} (form : (marker, width) ∈ floatForms)
      (length_eq : bits.length = width) : Spelled (marker :: bits) .float
  /-- A marker that holds a small number itself: `first` and the number. -/
  | small {first count n : Nat} {head : Nat → Head} (form : (first, count, head) ∈ smallForms)
      (lt : n < count) : Spelled [UInt8.ofNat (first + n)] (head n)
  /-- A marker that holds a small negative number. -/
  | negative {n : Nat} (pos : 0 < n) (le : n ≤ 32) :
      Spelled [UInt8.ofNat (256 - n)] (.signed (-n))
  /-- A marker and a word of `width` bytes that is wide enough for `n`. -/
  | word {marker : UInt8} {width n : Nat} {head : Nat → Head}
      (form : (marker, width, head) ∈ wordForms) (lt : n < Bytes.wordCount width) :
      Spelled (marker :: Bytes.bigEndian width n) (head n)
  /-- An integer of a signed kind, in two's complement. -/
  | signed {marker : UInt8} {width : Nat} {n : Int} (form : (marker, width) ∈ signedForms)
      (ge : -(Bytes.wordCount width : Int) ≤ 2 * n) (lt : 2 * n < Bytes.wordCount width) :
      Spelled (marker :: Bytes.bigEndian width (n % Bytes.wordCount width).toNat) (.signed n)
  /-- An extension of a fixed length. -/
  | extension {marker : UInt8} {length : Nat} (form : (marker, length) ∈ extensionForms) :
      Spelled [marker] (.extension length)

namespace Spelled

/-! The shortest spellings of the most frequent heads. -/

theorem number (n : Nat) (h : n < 128 := by decide) : Spelled [UInt8.ofNat (0 + n)] (.unsigned n) :=
  .small (by simp [smallForms]) h

theorem pairs (n : Nat) (h : n < 16 := by decide) : Spelled [UInt8.ofNat (0x80 + n)] (.map n) :=
  .small (by simp [smallForms]) h

theorem values (n : Nat) (h : n < 16 := by decide) : Spelled [UInt8.ofNat (0x90 + n)] (.array n) :=
  .small (by simp [smallForms]) h

theorem letters (n : Nat) (h : n < 32 := by decide) : Spelled [UInt8.ofNat (0xa0 + n)] (.text n) :=
  .small (by simp [smallForms]) h

theorem bytes (n : Nat) (h : n < 256 := by decide) :
    Spelled (0xc4 :: Bytes.bigEndian 1 n) (.binary n) :=
  .word (by simp [wordForms]) h

end Spelled

/-! ### What the markers announce -/

theorem afterMarker_float : ∀ form ∈ floatForms,
    afterMarker form.1 = (fun _ => .float) <$> take form.2 := by
  simp only [floatForms, List.forall_mem_cons]
  exact ⟨rfl, rfl, nofun⟩

theorem afterMarker_word : ∀ form ∈ wordForms,
    afterMarker form.1 = form.2.2 <$> big form.2.1 := by
  simp only [wordForms, List.forall_mem_cons]
  exact ⟨rfl, rfl, rfl, rfl, rfl, rfl, rfl, rfl, rfl, rfl, rfl, rfl, rfl, rfl, rfl, rfl, rfl, nofun⟩

/-- Changing a value twice is changing it once, by `fun a => f (g a)`. -/
theorem map_return {α β γ : Type} (f : β → γ) (g : α → β) (r : Reader α) :
    f <$> (do return g (← r)) = (fun a => f (g a)) <$> r := by
  simp only [map_eq_pure_bind, bind_assoc, pure_bind]

theorem afterMarker_signed : ∀ form ∈ signedForms,
    afterMarker form.1
      = (fun n : Nat => .signed (Int.bmod n (Bytes.wordCount form.2))) <$> big form.2 := by
  have hsize : Bytes.wordCount 8 = UInt64.size := by decide
  simp only [signedForms, List.forall_mem_cons, hsize]
  exact ⟨map_return _ _ (big 1), map_return _ _ (big 2), map_return _ _ (big 4),
    map_return _ _ (big 8), nofun⟩

theorem afterMarker_extension : ∀ form ∈ extensionForms,
    afterMarker form.1 = pure (.extension form.2) := by
  simp only [extensionForms, List.forall_mem_cons]
  exact ⟨rfl, rfl, rfl, rfl, rfl, nofun⟩

theorem afterMarker_negative {n : Nat} (hpos : 0 < n) (hle : n ≤ 32) :
    afterMarker (UInt8.ofNat (256 - n)) = pure (.signed (-n)) := by
  have hm : (UInt8.ofNat (256 - n)).toNat = 256 - n := by
    rw [UInt8.toNat_ofNat']
    omega
  have hn : ((256 - n : Nat) : Int) - 256 = -n := by omega
  simp only [afterMarker, hm]
  rw [if_neg (by omega), if_neg (by omega), if_neg (by omega), if_neg (by omega),
    if_pos (by omega), hn]

/-- The number `n` of a signed kind that the word `n % count` stands for. -/
theorem bmod_toNat_emod {count : Nat} {n : Int} (hcount : 0 < count) (hge : -(count : Int) ≤ 2 * n)
    (hlt : 2 * n < count) : Int.bmod (n % count).toNat count = n := by
  have hne : (count : Int) ≠ 0 := by omega
  rw [Int.toNat_of_nonneg (Int.emod_nonneg n hne), Int.emod_bmod]
  exact Int.bmod_eq_of_le_mul_two (by omega) (by omega)

/-- **Every spelling of a head is read:** `Spelled bs head` makes `Head.read` give `head` off
    `bs`. -/
theorem reads_spelled {bs : Bytes} {head : Head} (h : Spelled bs head) : read.Reads bs head := by
  cases h with
  | nil => exact fun _ => rfl
  | bool value => cases value <;> exact fun _ => rfl
  | @float marker width bits form length_eq =>
    subst length_eq
    exact reads_marker (afterMarker_float _ form ▸ (reads_take bits).map _)
  | small form lt => exact reads_marker (afterMarker_small _ form _ lt ▸ .pure _)
  | negative pos le => exact reads_marker (afterMarker_negative pos le ▸ .pure _)
  | word form lt => exact reads_word (afterMarker_word _ form) lt
  | @signed marker width n form ge lt =>
    have hcount : 0 < Bytes.wordCount width := by omega
    have hword : (n % Bytes.wordCount width).toNat < Bytes.wordCount width := by
      have hmod := Int.emod_lt_of_pos n (Int.natCast_pos.2 hcount)
      omega
    have hread := reads_marker (afterMarker_signed _ form ▸ (reads_big hword).map _)
    rwa [bmod_toNat_emod hcount ge lt] at hread
  | extension form => exact reads_marker (afterMarker_extension _ form ▸ .pure _)

/-! ### Whole values -/

/-- A head that is a whole value. -/
def isScalar : Head → Bool
  | .nil | .bool | .float | .unsigned _ | .signed _ => true
  | _ => false

/-- The head of a string of `length` bytes, `text` or `binary`. -/
def SpelledString (bs : Bytes) (length : Nat) : Prop :=
  Spelled bs (.text length) ∨ Spelled bs (.binary length)

/-- **The spellings of any value** that nests arrays, maps and extensions to `levels` levels at
    most. -/
inductive Whole : Nat → Bytes → Prop
  /-- A value that its head says whole. -/
  | scalar {levels : Nat} {bs : Bytes} {head : Head} (spelled : Spelled bs head)
      (whole : head.isScalar = true) : Whole levels bs
  /-- A text, whose bytes need be no UTF-8, or a byte string. -/
  | string {levels : Nat} {front content : Bytes} (spelled : SpelledString front content.length) :
      Whole levels (front ++ content)
  /-- An array of values. -/
  | array {levels : Nat} {front : Bytes} {values : List Bytes}
      (spelled : Spelled front (.array values.length)) (whole : ∀ v ∈ values, Whole levels v) :
      Whole (levels + 1) (front ++ values.flatten)
  /-- A map of pairs of values, any number of them alike. -/
  | map {levels : Nat} {front : Bytes} {pairs : List (Bytes × Bytes)}
      (spelled : Spelled front (.map pairs.length)) (keys : ∀ p ∈ pairs, Whole levels p.1)
      (values : ∀ p ∈ pairs, Whole levels p.2) :
      Whole (levels + 1) (front ++ pairs.flatMap fun p => p.1 ++ p.2)
  /-- An extension: a byte for its kind, and its bytes. -/
  | extension {levels length : Nat} {front content : Bytes}
      (spelled : Spelled front (.extension length)) (length_eq : content.length = length + 1) :
      Whole (levels + 1) (front ++ content)

end Head

namespace Reader

variable {α σ : Type}

/-- One `step`, and then `fold` as many times as are left. -/
theorem Reads.fold_cons {step : σ → Reader σ} {s s' s'' : σ} {bs bs' : Bytes} {n : Nat}
    (h : (step s).Reads bs s') (h' : (fold step s' n).Reads bs' s'') :
    (fold step s (n + 1)).Reads (bs ++ bs') s'' := by
  intro rest
  simp only [fold]
  rw [List.append_assoc, h]
  exact h' rest

/-- Steps that leave the state `s` as it is: `fold` reads all `values` and leaves it too. -/
theorem Reads.fold_const {step : σ → Reader σ} {s : σ} {values : List Bytes}
    (h : ∀ v ∈ values, (step s).Reads v s) :
    (fold step s values.length).Reads values.flatten s := by
  induction values with
  | nil => exact fun _ => rfl
  | cons v values ih =>
    exact .fold_cons (h v List.mem_cons_self) (ih fun w hw => h w (List.mem_cons_of_mem v hw))

/-- **A reader many times over** reads a list if it reads every element off its part: `r.times` on
    `parts.flatten`. -/
theorem Reads.times_forall₂ {r : Reader α} {as : List α} {parts : List Bytes}
    (h : List.Forall₂ (fun a bs => r.Reads bs a) as parts) :
    (r.times as.length).Reads parts.flatten as := by
  induction h with
  | nil => exact fun _ => rfl
  | @cons a bs as parts h _ ih =>
    intro rest
    rw [List.flatten_cons, List.append_assoc, List.length_cons, times_succ, h]
    simp only [ih rest, Option.map_some]

end Reader

namespace Head

/-- `skip` passes over a string, at any level. -/
theorem skip_string (levels : Nat) {front content : Bytes}
    (h : SpelledString front content.length) : (skip levels).Reads (front ++ content) () := by
  have htake : (do let _ ← take content.length : Reader Unit).Reads content () :=
    (reads_take content).bind_nil (.pure ())
  rcases h with h | h <;> cases levels <;> exact (reads_spelled h).bind htake

/-- **Every value is passed over** by `skip levels` that nests to `levels` levels at most. -/
theorem skip_whole {levels : Nat} {bs : Bytes} (h : Whole levels bs) :
    (skip levels).Reads bs () := by
  induction h with
  | @scalar levels bs head spelled whole =>
    cases head with
    | nil | bool | float | unsigned | signed =>
      cases levels <;> exact (reads_spelled spelled).bind_nil (.pure ())
    | text | binary | array | map | extension => exact nomatch whole
  | string spelled => exact skip_string _ spelled
  | @array levels front values spelled whole ih =>
    exact (reads_spelled spelled).bind (.fold_const ih)
  | @map levels front pairs spelled keys values ihkeys ihvalues =>
    refine (reads_spelled spelled).bind ?_
    -- The keys and values are passed over one by one.
    have hlength : (pairs.flatMap fun p => [p.1, p.2]).length = 2 * pairs.length := by
      simp [List.length_flatMap, List.map_const', Nat.mul_comm]
    have hflat : (pairs.flatMap fun p => [p.1, p.2]).flatten
        = pairs.flatMap fun p => p.1 ++ p.2 := by
      simp [List.flatMap, List.flatten_flatten, Function.comp_def]
    have hread : (fold (fun _ => skip levels) () (pairs.flatMap fun p => [p.1, p.2]).length).Reads
        (pairs.flatMap fun p => [p.1, p.2]).flatten () := by
      refine .fold_const fun v hv => ?_
      obtain ⟨p, hp, hmem⟩ := List.mem_flatMap.1 hv
      simp only [List.mem_cons, List.not_mem_nil, or_false] at hmem
      rcases hmem with rfl | rfl
      · exact ihkeys p hp
      · exact ihvalues p hp
    rwa [hlength, hflat] at hread
  | @extension levels length front content spelled length_eq =>
    refine (reads_spelled spelled).bind ?_
    have htake := reads_take content
    rw [length_eq] at htake
    exact htake.bind_nil (.pure ())

end Head

namespace Spelling

/-! ### Texts, bytes and byte strings -/

/-- **The spellings of a text:** its `Utf8.encode`, under the head of a `text` or a `binary`. -/
def Text (s : String) (bs : Bytes) : Prop :=
  ∃ front, Head.SpelledString front (Utf8.encode s).length ∧ bs = front ++ Utf8.encode s

/-- The spellings of a byte `b`: an integer of any kind that is `b.toNat`. -/
def Byte (b : UInt8) (bs : Bytes) : Prop :=
  Head.Spelled bs (.unsigned b.toNat) ∨ Head.Spelled bs (.signed b.toNat)

/-- The spellings of a sequence whose elements are spelled by `element`, one level down. -/
inductive Sequence {α : Type} (element : Nat → α → Bytes → Prop) : Nat → List α → Bytes → Prop
  /-- An array of the elements. -/
  | array {levels : Nat} {front : Bytes} {as : List α} {parts : List Bytes}
      (spelled : Head.Spelled front (.array as.length))
      (elements : List.Forall₂ (element levels) as parts) :
      Sequence element (levels + 1) as (front ++ parts.flatten)

/-- **The spellings of a byte string:** an `array` of integers, or a `binary`. -/
inductive Blob : Nat → Bytes → Bytes → Prop
  /-- An array of integers. -/
  | integers {levels : Nat} {content bs : Bytes}
      (spelled : Sequence (fun _ => Byte) levels content bs) : Blob levels content bs
  /-- Bytes. -/
  | binary {levels : Nat} {front content : Bytes}
      (spelled : Head.Spelled front (.binary content.length)) :
      Blob levels content (front ++ content)

/-! ### Keys -/

/-- **The spellings of a key** for the place of a field, `some place`, or for nothing known, `none`:
    a name, as text or bytes, or an unsigned number. -/
inductive Key (names : List String) : Option Nat → Bytes → Prop
  /-- The name of a field. -/
  | name {place : Nat} {name : String} {front : Bytes} (known : names[place]? = some name)
      (spelled : Head.SpelledString front (Utf8.encode name).length) :
      Key names (some place) (front ++ Utf8.encode name)
  /-- The number of a field. -/
  | number {place : Nat} {bs : Bytes} (known : place < names.length)
      (spelled : Head.Spelled bs (.unsigned place)) : Key names (some place) bs
  /-- A name that is of no field. -/
  | unknownName {front content : Bytes} (unknown : ∀ name ∈ names, Utf8.encode name ≠ content)
      (spelled : Head.SpelledString front content.length) : Key names none (front ++ content)
  /-- A number that is of no field. -/
  | unknownNumber {n : Nat} {bs : Bytes} (unknown : names.length ≤ n)
      (spelled : Head.Spelled bs (.unsigned n)) : Key names none bs

end Spelling

namespace MutationSet

open Spelling

theorem reads_textSpelled {s : String} {bs : Bytes} (h : Text s bs) : readText.Reads bs s := by
  obtain ⟨front, hfront, rfl⟩ := h
  rcases hfront with hfront | hfront <;>
    exact (Head.reads_spelled hfront).bind (Reader.reads_text s)

theorem reads_byteSpelled {b : UInt8} {bs : Bytes} (h : Byte b bs) : readByte.Reads bs b := by
  have hb : UInt8.ofNat b.toNat = b := UInt8.ofNat_toNat
  rcases h with h | h
  · refine (Head.reads_spelled h).bind_nil ?_
    simp only [if_pos b.toNat_lt, hb]
    exact .pure b
  · refine (Head.reads_spelled h).bind_nil ?_
    have hrange : 0 ≤ (b.toNat : Int) ∧ (b.toNat : Int) < 256 := by
      have hlt := b.toNat_lt
      omega
    simp only [if_pos hrange, Int.toNat_natCast, hb]
    exact .pure b

/-- `readSequence` reads a spelled sequence if `element` reads its elements. -/
theorem reads_sequenceSpelled {α : Type} {spelled : Nat → α → Bytes → Prop} {element : Reader α}
    {levels : Nat} {as : List α} {bs : Bytes} (h : Sequence spelled levels as bs)
    (h' : ∀ a part, spelled (levels - 1) a part → element.Reads part a) :
    (readSequence element).Reads bs as := by
  cases h with
  | array hfront elements =>
    exact (Head.reads_spelled hfront).bind (.times_forall₂ (elements.imp fun a part => h' a part))

theorem reads_blobSpelled {levels : Nat} {content bs : Bytes} (h : Blob levels content bs) :
    readBlob.Reads bs content := by
  cases h with
  | integers spelled =>
    cases spelled with
    | array hfront elements =>
      exact (Head.reads_spelled hfront).bind
        (.times_forall₂ (elements.imp fun b part => reads_byteSpelled))
  | binary spelled => exact (Head.reads_spelled spelled).bind (Reader.reads_take content)

section Keys

variable {names : List String}

/-- `fieldNamed` finds a name at its place, if no other one is spelled alike. -/
theorem fieldNamed_eq_some (hdistinct : (names.map Utf8.encode).Nodup) {place : Nat} {name : String}
    (h : names[place]? = some name) : fieldNamed names (Utf8.encode name) = some place := by
  obtain ⟨hplace, rfl⟩ := List.getElem?_eq_some_iff.1 h
  refine List.findIdx?_eq_some_iff_getElem.2 ⟨hplace, decide_eq_true rfl, fun j hj => ?_⟩
  simp only [decide_eq_true_eq]
  intro heq
  have hj' : j < (names.map Utf8.encode).length := by
    rw [List.length_map]
    exact Nat.lt_trans hj hplace
  have hplace' : place < (names.map Utf8.encode).length := by rwa [List.length_map]
  have hsame : (names.map Utf8.encode)[j] = (names.map Utf8.encode)[place] := by
    simpa only [List.getElem_map] using heq
  exact Nat.ne_of_lt hj ((List.Nodup.getElem_inj_iff hdistinct).1 hsame)

theorem fieldNamed_eq_none {content : Bytes} (h : ∀ name ∈ names, Utf8.encode name ≠ content) :
    fieldNamed names content = none :=
  List.findIdx?_eq_none_iff.2 fun name hname => decide_eq_false (h name hname)

/-- **Every spelling of a key is read** by `readKey`, be it of a field or of nothing known. -/
theorem reads_keySpelled (hdistinct : (names.map Utf8.encode).Nodup) {place : Option Nat}
    {bs : Bytes} (h : Key names place bs) : (readKey names).Reads bs place := by
  have hstring : ∀ {front content : Bytes}, Head.SpelledString front content.length →
      (readKey names).Reads (front ++ content) (fieldNamed names content) := by
    intro front content hfront
    rcases hfront with hfront | hfront <;>
      exact (Head.reads_spelled hfront).bind ((reads_take content).bind_nil (.pure _))
  have hnumber : ∀ {n : Nat} {bs : Bytes}, Head.Spelled bs (.unsigned n) →
      (readKey names).Reads bs (if n < names.length then some n else none) :=
    fun hn => (Head.reads_spelled hn).bind_nil (.pure _)
  cases h with
  | name known spelled => exact fieldNamed_eq_some hdistinct known ▸ hstring spelled
  | number known spelled => simpa only [if_pos known] using hnumber spelled
  | unknownName unknown spelled => exact fieldNamed_eq_none unknown ▸ hstring spelled
  | unknownNumber unknown spelled =>
    simpa only [if_neg (Nat.not_lt.2 unknown)] using hnumber spelled

end Keys

/-- The kinds of edit have different names: `editKinds` has no two that are encoded alike. -/
theorem distinct_editKinds : (editKinds.map Utf8.encode).Nodup := by decide +kernel

/-- **The kind of an edit** is read in every spelling: `kindAfter` finds it behind the head. -/
theorem read_kind {kind : Nat} {bs : Bytes} (h : Key editKinds (some kind) bs) (rest : Bytes) :
    ∃ head middle, Head.read (bs ++ rest) = some (head, middle)
      ∧ kindAfter head middle = some (kind, rest) := by
  cases h with
  | @name place name front known spelled =>
    have hname := reads_kind (fieldNamed_eq_some distinct_editKinds known) rest
    rw [List.append_assoc]
    rcases spelled with spelled | spelled
    · exact ⟨_, _, Head.reads_spelled spelled _, hname⟩
    · exact ⟨_, _, Head.reads_spelled spelled _, hname⟩
  | number known spelled =>
    refine ⟨_, _, Head.reads_spelled spelled rest, ?_⟩
    rw [kindAfter, if_pos known]
    rfl

end MutationSet

end BatchJournal
