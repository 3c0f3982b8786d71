import BatchJournal.Proofs.Codec.Refusal
import BatchJournal.Proofs.Codec.Structures

namespace BatchJournal

/-!
# Mutation sets in any spelling

What MessagePack documents stand for a mutation set is laid down by the spellings of its parts: each
table, edit and mutation may be an array or a map, each text a text or bytes, and each byte string
an array or bytes.  The reader is shown to take them all for the same mutation set, and to refuse
every document in which some map misses a field or repeats one.

* `Spelling.SetForm` — the documents of a mutation set.
* `Spelling.FlawedSet` — how documents begin in which a map is flawed.
* `Format.decodes_any_spelling` — the former are decoded and the latter refused.
-/

open Reader

namespace Spelling

/-! ### Tables, edits and mutations -/

/-- The fields of a structure, each by its spellings: `fields` has one predicate for each place. -/
def Fields (fields : List (Nat → Bytes → Prop)) (levels place : Nat) (bs : Bytes) : Prop :=
  ∃ field, fields[place]? = some field ∧ field levels bs

/-- The fields of a table, `keyspace` and `name`. -/
abbrev TableFields (a : String × String) : Nat → Nat → Bytes → Prop :=
  Fields [fun _ => Text a.1, fun _ => Text a.2]

/-- The spellings of a table. -/
abbrev TableForm (levels : Nat) (t : TableName) : Bytes → Prop :=
  Structure ["keyspace", "table"] (TableFields (t.keyspace, t.table)) levels

/-- The fields of a cell write. -/
abbrev UpsertFields (a : String × String × Bytes) : Nat → Nat → Bytes → Prop :=
  Fields [fun _ => Text a.1, fun _ => Text a.2.1, fun levels => Blob levels a.2.2]

/-- The fields of a cell deletion. -/
abbrev DeleteCellFields (a : String × String) : Nat → Nat → Bytes → Prop :=
  Fields [fun _ => Text a.1, fun _ => Text a.2]

/-- **The spellings of an edit:** a map from its kind to its fields, or the kind alone if it has
    none.  The map does not count among `levels`. -/
inductive EditForm (levels : Nat) : Edit → Bytes → Prop
  /-- A cell write. -/
  | upsert {clustering column : String} {value front kind body : Bytes}
      (one : Head.Spelled front (.map 1)) (is_kind : Key MutationSet.editKinds (some 0) kind)
      (fields : Structure ["clustering", "column", "value"]
        (UpsertFields (clustering, column, value)) levels body) :
      EditForm levels (.upsert clustering column value) (front ++ (kind ++ body))
  /-- A cell deletion. -/
  | deleteCell {clustering column : String} {front kind body : Bytes}
      (one : Head.Spelled front (.map 1)) (is_kind : Key MutationSet.editKinds (some 1) kind)
      (fields : Structure ["clustering", "column"] (DeleteCellFields (clustering, column)) levels
        body) :
      EditForm levels (.deleteCell clustering column) (front ++ (kind ++ body))
  /-- A partition deletion by its kind. -/
  | deletePartition {kind : Bytes} (is_kind : Key MutationSet.editKinds (some 2) kind) :
      EditForm levels .deletePartition kind
  /-- A partition deletion as a map to nothing. -/
  | deletePartitionMap {front kind body : Bytes} (one : Head.Spelled front (.map 1))
      (is_kind : Key MutationSet.editKinds (some 2) kind) (nothing : Head.Spelled body .nil) :
      EditForm levels .deletePartition (front ++ (kind ++ body))

/-- The fields of a mutation. -/
abbrev MutationFields (a : TableName × Bytes × List Edit) : Nat → Nat → Bytes → Prop :=
  Fields [fun levels => TableForm levels a.1, fun levels => Blob levels a.2.1,
    fun levels => Sequence EditForm levels a.2.2]

/-- The spellings of a mutation. -/
abbrev MutationForm (levels : Nat) (m : Mutation) : Bytes → Prop :=
  Structure ["table", "key", "ops"] (MutationFields (m.table, m.key, m.edits)) levels

/-- **The documents of a mutation set** whose arrays, maps and extensions nest to at most `levels`
    levels. -/
abbrev SetForm (levels : Nat) (ms : List Mutation) : Bytes → Prop :=
  Sequence MutationForm levels ms

/-! ### Flaws -/

/-- `fields` of any value. -/
abbrev AnyFields {α : Type} (fields : α → Nat → Nat → Bytes → Prop) (levels place : Nat)
    (bs : Bytes) : Prop :=
  ∃ a, fields a levels place bs

/-- Fields without structures in them, which therefore have no flaws. -/
abbrev Flawless (_levels _place : Nat) (_bs : Bytes) : Prop := False

/-- The beginnings of sequences up to the flaw in an element. -/
inductive FlawedSequence {α : Type} (element : Nat → α → Bytes → Prop)
    (flawed : Nat → Bytes → Prop) : Nat → Bytes → Prop
  /-- The elements before the one with the flaw, and that one. -/
  | array {levels count : Nat} {front value : Bytes} {as : List α} {parts : List Bytes}
      (spelled : Head.Spelled front (.array count)) (more : as.length < count)
      (elements : List.Forall₂ (element levels) as parts) (value_flawed : flawed levels value) :
      FlawedSequence element flawed (levels + 1) (front ++ (parts.flatten ++ value))

/-- Tables that miss or repeat a field. -/
abbrev FlawedTable (levels : Nat) : Bytes → Prop :=
  Flawed ["keyspace", "table"] (AnyFields TableFields) Flawless levels

/-- Edits that miss or repeat a field. -/
inductive FlawedEdit (levels : Nat) : Bytes → Prop
  /-- A cell write. -/
  | upsert {front kind body : Bytes} (one : Head.Spelled front (.map 1))
      (is_kind : Key MutationSet.editKinds (some 0) kind)
      (fields : Flawed ["clustering", "column", "value"] (AnyFields UpsertFields) Flawless levels
        body) :
      FlawedEdit levels (front ++ (kind ++ body))
  /-- A cell deletion. -/
  | deleteCell {front kind body : Bytes} (one : Head.Spelled front (.map 1))
      (is_kind : Key MutationSet.editKinds (some 1) kind)
      (fields : Flawed ["clustering", "column"] (AnyFields DeleteCellFields) Flawless levels
        body) :
      FlawedEdit levels (front ++ (kind ++ body))

/-- The flaws in the fields of a mutation: one in its table, or one in some edit. -/
inductive FlawedMutationField : Nat → Nat → Bytes → Prop
  /-- The table. -/
  | table {levels : Nat} {bs : Bytes} (flawed : FlawedTable levels bs) :
      FlawedMutationField levels 0 bs
  /-- The edits. -/
  | edits {levels : Nat} {bs : Bytes} (flawed : FlawedSequence EditForm FlawedEdit levels bs) :
      FlawedMutationField levels 2 bs

/-- Mutations that miss or repeat a field, or in which a table or an edit does. -/
abbrev FlawedMutation (levels : Nat) : Bytes → Prop :=
  Flawed ["table", "key", "ops"] (AnyFields MutationFields) FlawedMutationField levels

/-- **The beginnings of flawed documents:** in some map a field is missing or repeated. -/
abbrev FlawedSet (levels : Nat) : Bytes → Prop :=
  FlawedSequence MutationForm FlawedMutation levels

end Spelling

namespace MutationSet

open Spelling

/-! ### Fields that are read once -/

section Once

variable {α σ : Type} {r : Reader α} {former : Option α} {bs : Bytes}

/-- `once` reads a field that is missing. -/
theorem reads_missing {a : α} (hmissing : former.isSome = false) (h : r.Reads bs a)
    (put : Option α → σ) : (do return put (← once former r)).Reads bs (put (some a)) := by
  obtain rfl := Option.isSome_eq_false_iff.1 hmissing |> Option.isNone_iff_eq_none.1
  exact (h.map some).bind_nil (.pure _)

/-- `once` does not read a field again. -/
theorem refuses_filled (hfilled : former.isSome = true) (put : Option α → σ) (bs : Bytes) :
    (do return put (← once former r)) bs = none := by
  obtain ⟨a, rfl⟩ := Option.isSome_iff_exists.1 hfilled
  rfl

/-- `once` fails where the field cannot be read. -/
theorem refuses_once_of_refuses (h : r bs = none) (put : Option α → σ) :
    (do return put (← once former r)) bs = none := by
  show (once former r bs).bind _ = none
  rw [once_eq_none h]
  rfl

end Once

/-! ### Structures of two and three fields -/

section Builders

variable {α₁ α₂ α₃ β : Type} (read₁ : Nat → Reader α₁) (read₂ : Nat → Reader α₂)
  (read₃ : Nat → Reader α₃) (spelled₁ : α₁ → Nat → Bytes → Prop)
  (spelled₂ : α₂ → Nat → Bytes → Prop) (spelled₃ : α₃ → Nat → Bytes → Prop)

/-- A structure of two fields. -/
def Record.two (name₁ name₂ : String) (make : α₁ × α₂ → β)
    (distinct : ([name₁, name₂].map Utf8.encode).Nodup)
    (reads₁ : ∀ levels a bs, spelled₁ a levels bs → (read₁ (levels + 1)).Reads bs a)
    (reads₂ : ∀ levels a bs, spelled₂ a levels bs → (read₂ (levels + 1)).Reads bs a) :
    Record (Option α₁ × Option α₂) (α₁ × α₂) β where
  names := [name₁, name₂]
  start := (none, none)
  field levels := fun (first, second) place => do
    match place with
    | 0 => return (← once first (read₁ levels), second)
    | _ => return (first, ← once second (read₂ levels))
  finish s := do return make (← s.1, ← s.2)
  distinct := distinct
  spelled a := Fields [spelled₁ a.1, spelled₂ a.2]
  make := make
  filled s place := match place with
    | 0 => s.1.isSome
    | _ => s.2.isSome
  fill s place a := match place with
    | 0 => (some a.1, s.2)
    | _ => (s.1, some a.2)
  agrees s a := (∀ b ∈ s.1, b = a.1) ∧ ∀ b ∈ s.2, b = a.2
  filled_start
    | 0, _ | 1, _ => rfl
  filled_fill s a
    | 0, _, 0, _ | 0, _, 1, _ | 1, _, 0, _ | 1, _, 1, _ => by simp
  agrees_start a := by simp
  agrees_fill s a place h := by
    split
    · exact ⟨by simp, h.2⟩
    · exact ⟨h.1, by simp⟩
  finish_missing s
    | 0, _, h | 1, _, h => by simp_all
  finish_full s a h hfull := by
    obtain ⟨b₁, h₁⟩ := Option.isSome_iff_exists.1 (hfull 0 (by simp))
    obtain ⟨b₂, h₂⟩ := Option.isSome_iff_exists.1 (hfull 1 (by simp))
    obtain rfl := h.1 b₁ h₁
    obtain rfl := h.2 b₂ h₂
    rw [h₁, h₂]
    rfl
  reads levels s a
    | 0, _, hfree, bs, ⟨_, hfield, h⟩ =>
      reads_missing hfree (reads₁ levels a.1 bs (Option.some.inj hfield ▸ h)) fun b => (b, s.2)
    | 1, _, hfree, bs, ⟨_, hfield, h⟩ =>
      reads_missing hfree (reads₂ levels a.2 bs (Option.some.inj hfield ▸ h)) fun b => (s.1, b)
  refuses levels s
    | 0, _, hfilled, bs => refuses_filled hfilled (fun b => (b, s.2)) bs
    | 1, _, hfilled, bs => refuses_filled hfilled (fun b => (s.1, b)) bs

/-- A structure of three fields. -/
def Record.three (name₁ name₂ name₃ : String) (make : α₁ × α₂ × α₃ → β)
    (distinct : ([name₁, name₂, name₃].map Utf8.encode).Nodup)
    (reads₁ : ∀ levels a bs, spelled₁ a levels bs → (read₁ (levels + 1)).Reads bs a)
    (reads₂ : ∀ levels a bs, spelled₂ a levels bs → (read₂ (levels + 1)).Reads bs a)
    (reads₃ : ∀ levels a bs, spelled₃ a levels bs → (read₃ (levels + 1)).Reads bs a) :
    Record (Option α₁ × Option α₂ × Option α₃) (α₁ × α₂ × α₃) β where
  names := [name₁, name₂, name₃]
  start := (none, none, none)
  field levels := fun (first, second, third) place => do
    match place with
    | 0 => return (← once first (read₁ levels), second, third)
    | 1 => return (first, ← once second (read₂ levels), third)
    | _ => return (first, second, ← once third (read₃ levels))
  finish s := do return make (← s.1, ← s.2.1, ← s.2.2)
  distinct := distinct
  spelled a := Fields [spelled₁ a.1, spelled₂ a.2.1, spelled₃ a.2.2]
  make := make
  filled s place := match place with
    | 0 => s.1.isSome
    | 1 => s.2.1.isSome
    | _ => s.2.2.isSome
  fill s place a := match place with
    | 0 => (some a.1, s.2.1, s.2.2)
    | 1 => (s.1, some a.2.1, s.2.2)
    | _ => (s.1, s.2.1, some a.2.2)
  agrees s a := (∀ b ∈ s.1, b = a.1) ∧ (∀ b ∈ s.2.1, b = a.2.1) ∧ ∀ b ∈ s.2.2, b = a.2.2
  filled_start
    | 0, _ | 1, _ | 2, _ => rfl
  filled_fill s a
    | 0, _, 0, _ | 0, _, 1, _ | 0, _, 2, _ | 1, _, 0, _ | 1, _, 1, _ | 1, _, 2, _
    | 2, _, 0, _ | 2, _, 1, _ | 2, _, 2, _ => by simp
  agrees_start a := by simp
  agrees_fill s a place h := by
    split
    · exact ⟨by simp, h.2⟩
    · exact ⟨h.1, by simp, h.2.2⟩
    · exact ⟨h.1, h.2.1, by simp⟩
  finish_missing s
    | 0, _, h | 1, _, h | 2, _, h => by simp_all
  finish_full s a h hfull := by
    obtain ⟨b₁, h₁⟩ := Option.isSome_iff_exists.1 (hfull 0 (by simp))
    obtain ⟨b₂, h₂⟩ := Option.isSome_iff_exists.1 (hfull 1 (by simp))
    obtain ⟨b₃, h₃⟩ := Option.isSome_iff_exists.1 (hfull 2 (by simp))
    obtain rfl := h.1 b₁ h₁
    obtain rfl := h.2.1 b₂ h₂
    obtain rfl := h.2.2 b₃ h₃
    rw [h₁, h₂, h₃]
    rfl
  reads levels s a
    | 0, _, hfree, bs, ⟨_, hfield, h⟩ =>
      reads_missing hfree (reads₁ levels a.1 bs (Option.some.inj hfield ▸ h))
        fun b => (b, s.2.1, s.2.2)
    | 1, _, hfree, bs, ⟨_, hfield, h⟩ =>
      reads_missing hfree (reads₂ levels a.2.1 bs (Option.some.inj hfield ▸ h))
        fun b => (s.1, b, s.2.2)
    | 2, _, hfree, bs, ⟨_, hfield, h⟩ =>
      reads_missing hfree (reads₃ levels a.2.2 bs (Option.some.inj hfield ▸ h))
        fun b => (s.1, s.2.1, b)
  refuses levels s
    | 0, _, hfilled, bs => refuses_filled hfilled (fun b => (b, s.2.1, s.2.2)) bs
    | 1, _, hfilled, bs => refuses_filled hfilled (fun b => (s.1, b, s.2.2)) bs
    | 2, _, hfilled, bs => refuses_filled hfilled (fun b => (s.1, s.2.1, b)) bs

end Builders

/-! ### The structures of a mutation set -/

/-- Tables. -/
def tableRecord : Record (Option String × Option String) (String × String) TableName :=
  .two (fun _ => readText) (fun _ => readText) (fun s _ => Text s) (fun s _ => Text s) "keyspace"
    "table" (fun a => ⟨a.1, a.2⟩) (by decide +kernel)
    (fun _ _ _ => reads_textSpelled) (fun _ _ _ => reads_textSpelled)

theorem readTable_eq (levels : Nat) : readTable levels = tableRecord.read levels := by
  refine bind_congr fun ⟨keyspace, table⟩ => ?_
  cases keyspace <;> cases table <;> rfl

/-- **`readTable` reads a table** in every spelling. -/
theorem reads_tableForm {levels : Nat} {t : TableName} {bs : Bytes} (h : TableForm levels t bs) :
    (readTable levels).Reads bs t := by
  rw [readTable_eq]
  exact tableRecord.reads_structure (a := (t.keyspace, t.table)) h

/-- A `FlawedTable` is refused. -/
theorem refuses_flawedTable {levels : Nat} {bs : Bytes} (h : FlawedTable levels bs)
    (rest : Bytes) : readTable levels (bs ++ rest) = none := by
  rw [readTable_eq]
  exact tableRecord.refuses_flawed h (fun _ _ _ hflaw => hflaw.elim) rest

/-- Cell writes. -/
def upsertRecord :
    Record (Option String × Option String × Option Bytes) (String × String × Bytes) Edit :=
  .three (fun _ => readText) (fun _ => readText) (fun _ => readBlob) (fun s _ => Text s)
    (fun s _ => Text s) (fun value levels => Blob levels value) "clustering" "column" "value"
    (fun a => .upsert a.1 a.2.1 a.2.2) (by decide +kernel)
    (fun _ _ _ => reads_textSpelled) (fun _ _ _ => reads_textSpelled)
    (fun _ _ _ => reads_blobSpelled)

theorem readUpsert_eq (levels : Nat) : readUpsert levels = upsertRecord.read levels := by
  refine bind_congr fun ⟨clustering, column, value⟩ => ?_
  cases clustering <;> cases column <;> cases value <;> rfl

/-- Cell deletions. -/
def deleteCellRecord : Record (Option String × Option String) (String × String) Edit :=
  .two (fun _ => readText) (fun _ => readText) (fun s _ => Text s) (fun s _ => Text s) "clustering"
    "column" (fun a => .deleteCell a.1 a.2) (by decide +kernel)
    (fun _ _ _ => reads_textSpelled) (fun _ _ _ => reads_textSpelled)

theorem readDeleteCell_eq (levels : Nat) :
    readDeleteCell levels = deleteCellRecord.read levels := by
  refine bind_congr fun ⟨clustering, column⟩ => ?_
  cases clustering <;> cases column <;> rfl

/-- What stands behind the kind of an edit in a map of one pair. -/
def readBody (levels : Nat) : Nat → Reader Edit
  | 0 => readUpsert levels
  | 1 => readDeleteCell levels
  | _ => do
    match ← Head.read with
    | .nil => return .deletePartition
    | _ => Reader.fail

/-- An edit that is a map is read by its kind, with `readBody`. -/
theorem readEdit_map {levels kind : Nat} {front name : Bytes} (hone : Head.Spelled front (.map 1))
    (hkind : Key editKinds (some kind) name) (rest : Bytes) :
    readEdit levels (front ++ (name ++ rest)) = readBody levels kind rest := by
  obtain ⟨head, middle, hread, hafter⟩ := read_kind hkind rest
  show (Head.read (front ++ (name ++ rest))).bind _ = _
  rw [Head.reads_spelled hone]
  show ((Head.read (name ++ rest)).bind fun p => (kindAfter p.1 p.2).bind _) = _
  rw [hread]
  show (kindAfter head middle).bind _ = _
  rw [hafter]
  match kind with
  | 0 | 1 | _ + 2 => rfl

/-- **`readEdit` reads an edit** in every spelling. -/
theorem reads_editForm {levels : Nat} {e : Edit} {bs : Bytes} (h : EditForm levels e bs) :
    (readEdit levels).Reads bs e := by
  intro rest
  cases h with
  | upsert one is_kind fields =>
    rw [List.append_assoc, List.append_assoc, readEdit_map one is_kind, readBody, readUpsert_eq]
    exact upsertRecord.reads_structure fields rest
  | deleteCell one is_kind fields =>
    rw [List.append_assoc, List.append_assoc, readEdit_map one is_kind, readBody, readDeleteCell_eq]
    exact deleteCellRecord.reads_structure fields rest
  -- The kind alone is no map: what `read_kind` says of its head selects the branch.
  | deletePartition is_kind =>
    obtain ⟨head, middle, hread, hafter⟩ := read_kind is_kind rest
    show (Head.read (bs ++ rest)).bind _ = _
    rw [hread]
    cases head with
    | text n | binary n | unsigned n =>
      show (kindAfter _ middle).bind _ = _
      rw [hafter]
      rfl
    | _ => exact nomatch (show none = some (2, rest) from hafter)
  | deletePartitionMap one is_kind nothing =>
    rw [List.append_assoc, List.append_assoc, readEdit_map one is_kind]
    exact (Head.reads_spelled nothing).bind_nil (.pure Edit.deletePartition) rest

/-- A `FlawedEdit` is refused. -/
theorem refuses_flawedEdit {levels : Nat} {bs : Bytes} (h : FlawedEdit levels bs) (rest : Bytes) :
    readEdit levels (bs ++ rest) = none := by
  cases h with
  | upsert one is_kind fields =>
    rw [List.append_assoc, List.append_assoc, readEdit_map one is_kind, readBody, readUpsert_eq]
    exact upsertRecord.refuses_flawed fields (fun _ _ _ hflaw => hflaw.elim) rest
  | deleteCell one is_kind fields =>
    rw [List.append_assoc, List.append_assoc, readEdit_map one is_kind, readBody, readDeleteCell_eq]
    exact deleteCellRecord.refuses_flawed fields (fun _ _ _ hflaw => hflaw.elim) rest

/-- A sequence is refused if one of its elements is. -/
theorem refuses_flawedSequence {α : Type} {spelled : Nat → α → Bytes → Prop}
    {flawed : Nat → Bytes → Prop} {element : Reader α} {levels : Nat} {bs : Bytes}
    (h : FlawedSequence spelled flawed levels bs)
    (hreads : ∀ a part, spelled (levels - 1) a part → element.Reads part a)
    (hrefuses : ∀ part, flawed (levels - 1) part → ∀ rest, element (part ++ rest) = none)
    (rest : Bytes) : readSequence element (bs ++ rest) = none := by
  cases h with
  | @array levels count front value as parts hfront more elements value_flawed =>
    obtain ⟨left, rfl⟩ := Nat.exists_eq_add_of_lt more
    -- The elements before the flaw are read, and the repetition ends at it.
    have htimes : ∀ (as : List α) (parts : List Bytes), List.Forall₂ (spelled levels) as parts →
        (element.times (as.length + (left + 1))) (parts.flatten ++ (value ++ rest)) = none := by
      intro as parts h
      induction h with
      | nil => rw [List.length_nil, Nat.zero_add, times_succ, List.flatten_nil, List.nil_append,
          hrefuses value value_flawed]
      | @cons a part as parts hpart _ ih =>
        rw [List.length_cons, Nat.add_right_comm, times_succ, List.flatten_cons, List.append_assoc,
          hreads a part hpart]
        simp only [ih, Option.map_none]
    show (Head.read (front ++ (parts.flatten ++ value) ++ rest)).bind _ = none
    rw [List.append_assoc, List.append_assoc, Head.reads_spelled hfront]
    exact htimes as parts elements

/-- Mutations. -/
def mutationRecord :
    Record (Option TableName × Option Bytes × Option (List Edit)) (TableName × Bytes × List Edit)
      Mutation :=
  .three (fun levels => readTable (levels - 1)) (fun _ => readBlob)
    (fun levels => readSequence (readEdit (levels - 2))) (fun t levels => TableForm levels t)
    (fun key levels => Blob levels key) (fun edits levels => Sequence EditForm levels edits) "table"
    "key" "ops" (fun a => ⟨a.1, a.2.1, a.2.2⟩) (by decide +kernel)
    (fun _ _ _ => reads_tableForm) (fun _ _ _ => reads_blobSpelled)
    (fun _ _ _ h => reads_sequenceSpelled h fun _ _ => reads_editForm)

theorem readMutation_eq (levels : Nat) : readMutation levels = mutationRecord.read levels := by
  refine bind_congr fun ⟨table, key, edits⟩ => ?_
  cases table <;> cases key <;> cases edits <;> rfl

/-- **`readMutation` reads a mutation** in every spelling. -/
theorem reads_mutationForm {levels : Nat} {m : Mutation} {bs : Bytes}
    (h : MutationForm levels m bs) : (readMutation levels).Reads bs m := by
  rw [readMutation_eq]
  exact mutationRecord.reads_structure (a := (m.table, m.key, m.edits)) h

/-- A `FlawedMutation` is refused. -/
theorem refuses_flawedMutation {levels : Nat} {bs : Bytes} (h : FlawedMutation levels bs)
    (rest : Bytes) : readMutation levels (bs ++ rest) = none := by
  rw [readMutation_eq]
  refine mutationRecord.refuses_flawed h (fun (table, key, edits) place part hflaw rest => ?_) rest
  cases hflaw with
  | table flawed =>
    exact refuses_once_of_refuses (refuses_flawedTable flawed rest) fun b => (b, key, edits)
  | edits flawed =>
    have hedits := refuses_flawedSequence flawed (fun _ _ => reads_editForm)
      (fun _ => refuses_flawedEdit) rest
    exact refuses_once_of_refuses hedits fun b => (table, key, b)

end MutationSet

namespace Format

open Spelling MutationSet

/-- **Any spelling is decoded:** every document of a mutation set gives it, and no document is
    decoded in which some map of a mutation, a table or an edit misses a field or repeats one,
    whatever follows the flaw. -/
theorem decodes_any_spelling :
    (∀ ms document, SetForm maxLevels ms document → messagePack.decode document = .ok ms)
      ∧ ∀ front, FlawedSet maxLevels front → ∀ rest, ∃ what, messagePack.decode (front ++ rest)
        = .error (.malformed ⟨2⟩ (front ++ rest).length what) := by
  refine ⟨fun ms document h => ?_, fun front h rest => ?_⟩
  · exact readWhole_of_reads (reads_sequenceSpelled h fun _ _ => reads_mutationForm)
  · refine malformed_of_readWhole fun ms hread => ?_
    have hnone := refuses_flawedSequence h (fun _ _ => reads_mutationForm)
      (fun _ => refuses_flawedMutation) rest
    exact nomatch hnone.symm.trans hread

/-- A set whose mutation is a map with its fields in another order and a value that is not known
    among them, with names as bytes and a byte as a signed number; and a mutation with its key
    twice. -/
theorem decodes_any_spelling_at :
    messagePack.decode [0xdc, 0, 1, 0x84,
        -- the edits: a cell write, and the number of the third kind
        2, 0x92, 0x81, 0, 0x83,
          0xa5, 0x76, 0x61, 0x6c, 0x75, 0x65, 0x91, 0xd0, 1, 1, 0xc4, 1, 0x76, 0, 0xa1, 0x63,
          2,
        -- an extension under a name that is not known, the key, and the table
        0xa1, 0x78, 0x91, 0xd4, 9, 9, 0xc4, 3, 0x6b, 0x65, 0x79, 0xc4, 1, 0x80,
        0, 0x82, 1, 0xa1, 0x74, 0, 0xa2, 0x6b, 0x73]
        = .ok [⟨⟨"ks", "t"⟩, [0x80], [.upsert "c" "v" [1], .deletePartition]⟩]
      ∧ ∃ what, messagePack.decode
          ([0x91, 0x83, 1, 0xc4, 1, 0x80, 0xa3, 0x6b, 0x65, 0x79] ++ [0x90])
        = .error (.malformed ⟨2⟩ 11 what) := by
  have hindex : ∀ {names : List String}, ∀ n < names.length, n < 128 →
      Key names (some n) [UInt8.ofNat (0 + n)] := fun n hn hsmall => .number hn (.number n hsmall)
  have hkey : Blob 1021 [0x80] [0xc4, 1, 0x80] := @Blob.binary _ _ [0x80] (.bytes 1)
  constructor
  · have hupsert : EditForm 1020 (.upsert "c" "v" [1]) [0x81, 0, 0x83,
        0xa5, 0x76, 0x61, 0x6c, 0x75, 0x65, 0x91, 0xd0, 1, 1, 0xc4, 1, 0x76, 0, 0xa1, 0x63] := by
      have hone : Head.Spelled (0xd0 :: Bytes.bigEndian 1 1) (.signed 1) :=
        .signed (n := 1) (by simp [Head.signedForms]) (by decide) (by decide)
      have hvalue : Blob 1019 [1] [0x91, 0xd0, 1] :=
        .integers (@Sequence.array _ _ _ _ _ [[0xd0, 1]] (.values 1) (.cons (Or.inr hone) .nil))
      have hname : Key ["clustering", "column", "value"] (some 2)
          [0xa5, 0x76, 0x61, 0x6c, 0x75, 0x65] :=
        @Key.name _ _ "value" _ rfl (.inl (.letters 5))
      refine @EditForm.upsert _ _ _ _ _ _ (0x83 :: _) (.pairs 1) (hindex 0 (by decide) (by decide))
        (@Structure.map _ _ _ _ [(some 2, [0xa5, 0x76, 0x61, 0x6c, 0x75, 0x65, 0x91, 0xd0, 1]),
          (some 1, [1, 0xc4, 1, 0x76]), (some 0, [0, 0xa1, 0x63])] (.pairs 3) ?_ (by decide))
      simp only [List.forall_mem_cons]
      refine ⟨.known hname ⟨_, rfl, hvalue⟩, .known (hindex 1 (by decide) (by decide)) ⟨_, rfl, ?_⟩,
        .known (hindex 0 (by decide) (by decide)) ⟨_, rfl, ?_⟩, List.forall_mem_nil _⟩
      · exact ⟨[0xc4, 1], .inr (.bytes 1), by decide +kernel⟩
      · exact ⟨[0xa1], .inl (.letters 1), by decide +kernel⟩
    have hedits : Sequence EditForm 1021 [.upsert "c" "v" [1], .deletePartition] [0x92, 0x81, 0,
        0x83, 0xa5, 0x76, 0x61, 0x6c, 0x75, 0x65, 0x91, 0xd0, 1, 1, 0xc4, 1, 0x76, 0, 0xa1, 0x63,
        2] :=
      .array (.values 2)
        (.cons hupsert (.cons (.deletePartition (hindex 2 (by decide) (by decide))) .nil))
    have htable : TableForm 1021 ⟨"ks", "t"⟩ [0x82, 1, 0xa1, 0x74, 0, 0xa2, 0x6b, 0x73] := by
      refine @Structure.map _ _ _ _ [(some 1, [1, 0xa1, 0x74]), (some 0, [0, 0xa2, 0x6b, 0x73])]
        (.pairs 2) ?_ (by decide)
      simp only [List.forall_mem_cons]
      refine ⟨.known (hindex 1 (by decide) (by decide)) ⟨_, rfl, ?_⟩,
        .known (hindex 0 (by decide) (by decide)) ⟨_, rfl, ?_⟩, List.forall_mem_nil _⟩
      · exact ⟨[0xa1], .inl (.letters 1), by decide +kernel⟩
      · exact ⟨[0xa2], .inl (.letters 2), by decide +kernel⟩
    have hunknown : Key ["table", "key", "ops"] none [0xa1, 0x78] :=
      @Key.unknownName _ _ [0x78] (by decide +kernel) (.inl (.letters 1))
    have hone : Head.Spelled [0xd4] (.extension 1) := .extension (by simp [Head.extensionForms])
    have hextension : Head.Whole 1020 [0xd4, 9, 9] :=
      @Head.Whole.extension _ _ _ [9, 9] hone rfl
    have hwhole : Head.Whole 1021 [0x91, 0xd4, 9, 9] :=
      @Head.Whole.array _ _ [[0xd4, 9, 9]] (.values 1) (List.forall_mem_singleton.2 hextension)
    have hname : Key ["table", "key", "ops"] (some 1) [0xc4, 3, 0x6b, 0x65, 0x79] :=
      @Key.name _ _ "key" _ rfl (.inr (.bytes 3))
    have hmutation : MutationForm 1022
        ⟨⟨"ks", "t"⟩, [0x80], [.upsert "c" "v" [1], .deletePartition]⟩ [0x84,
          2, 0x92, 0x81, 0, 0x83,
            0xa5, 0x76, 0x61, 0x6c, 0x75, 0x65, 0x91, 0xd0, 1, 1, 0xc4, 1, 0x76, 0, 0xa1, 0x63, 2,
          0xa1, 0x78, 0x91, 0xd4, 9, 9, 0xc4, 3, 0x6b, 0x65, 0x79, 0xc4, 1, 0x80,
          0, 0x82, 1, 0xa1, 0x74, 0, 0xa2, 0x6b, 0x73] := by
      refine @Structure.map _ _ _ _ [
        (some 2, [2, 0x92, 0x81, 0, 0x83, 0xa5, 0x76, 0x61, 0x6c, 0x75, 0x65, 0x91, 0xd0, 1,
          1, 0xc4, 1, 0x76, 0, 0xa1, 0x63, 2]),
        (none, [0xa1, 0x78, 0x91, 0xd4, 9, 9]),
        (some 1, [0xc4, 3, 0x6b, 0x65, 0x79, 0xc4, 1, 0x80]),
        (some 0, [0, 0x82, 1, 0xa1, 0x74, 0, 0xa2, 0x6b, 0x73])] (.pairs 4) ?_ (by decide)
      simp only [List.forall_mem_cons]
      exact ⟨.known (hindex 2 (by decide) (by decide)) ⟨_, rfl, hedits⟩, .unknown hunknown hwhole,
        .known hname ⟨_, rfl, hkey⟩, .known (hindex 0 (by decide) (by decide)) ⟨_, rfl, htable⟩,
        List.forall_mem_nil _⟩
    have hone : Head.Spelled (0xdc :: Bytes.bigEndian 2 1) (.array 1) :=
      .word (by simp [Head.wordForms]) (by decide)
    exact decodes_any_spelling.1 _ _ (@Sequence.array _ _ _ _ [_] [_] hone (.cons hmutation .nil))
  · have hname : Key ["table", "key", "ops"] (some 1) [0xa3, 0x6b, 0x65, 0x79] :=
      @Key.name _ _ "key" _ rfl (.inl (.letters 3))
    have hflawed : FlawedMutation 1022 [0x83, 1, 0xc4, 1, 0x80, 0xa3, 0x6b, 0x65, 0x79] := by
      refine @Flawed.repeated _ _ _ _ _ _ _ _ [(some 1, [1, 0xc4, 1, 0x80])] (.pairs 3) (by decide)
        ?_ (by decide) hname
      refine List.forall_mem_singleton.2 (.known (hindex 1 (by decide) (by decide)) ?_)
      exact ⟨(⟨"", ""⟩, [0x80], []), _, rfl, hkey⟩
    exact decodes_any_spelling.2 _ (.array (.values 1) (by decide) .nil hflawed) [0x90]

/-- The fields of a mutation, as pairs of a map. -/
def plainPairs : Spelling.Pairs :=
  [(some 0, [0, 0x92, 0xa2, 0x6b, 0x73, 0xa1, 0x74]), (some 1, [1, 0x91, 0x6b]),
    (some 2, [2, 0x91, 2])]

/-- The document of one mutation that is a map of `pairs`. -/
def documentOf (pairs : Spelling.Pairs) : Bytes :=
  0x91 :: UInt8.ofNat (0x80 + pairs.length) :: content pairs

/-- An empty array in `levels` others. -/
def nested (levels : Nat) : Bytes := List.replicate levels 0x91 ++ [0x90]

theorem whole_nested (levels : Nat) : Head.Whole (levels + 1) (nested levels) := by
  induction levels with
  | zero => exact @Head.Whole.array _ _ [] (.values 0) nofun
  | succ levels ih =>
    have harray : Head.Whole (levels + 2) ([0x91] ++ [nested levels].flatten) :=
      .array (.values 1) (List.forall_mem_singleton.2 ih)
    rw [List.flatten_cons, List.flatten_nil, List.append_nil] at harray
    exact harray

/-- **What is not decoded:** a value that is not known and nests so deep that the document has 1024
    levels, and a value whose key is neither a name nor an unsigned number.  Without that value the
    document is decoded. -/
theorem refuses_deep_and_odd_keys :
    messagePack.decode (documentOf plainPairs) = .ok [⟨⟨"ks", "t"⟩, [0x6b], [.deletePartition]⟩]
      ∧ (SetForm 1024 [⟨⟨"ks", "t"⟩, [0x6b], [.deletePartition]⟩]
          (documentOf ((none, [0xa2, 0x7a, 0x7a] ++ nested 1021) :: plainPairs))
        ∧ ∃ what, messagePack.decode
            (documentOf ((none, [0xa2, 0x7a, 0x7a] ++ nested 1021) :: plainPairs))
          = .error (.malformed ⟨2⟩ 1040 what))
      ∧ Head.Whole 1 (nested 0)
      ∧ ∃ what, messagePack.decode (documentOf ((none, [0xc0] ++ nested 0) :: plainPairs))
        = .error (.malformed ⟨2⟩ 17 what) := by
  -- The document has a field of no name whose value nests 1021 deep, and is a form of its set all
  -- the same.
  have hdeep : MutationForm 1023 ⟨⟨"ks", "t"⟩, [0x6b], [.deletePartition]⟩
      (0x84 :: content ((none, [0xa2, 0x7a, 0x7a] ++ nested 1021) :: plainPairs)) := by
    -- Four pairs: one of no field, and the three of a mutation.
    have hunknown : Key ["table", "key", "ops"] none [0xa2, 0x7a, 0x7a] :=
      @Key.unknownName _ _ [0x7a, 0x7a] (by decide +kernel) (.inl (.letters 2))
    have htable : TableForm 1022 ⟨"ks", "t"⟩ [0x92, 0xa2, 0x6b, 0x73, 0xa1, 0x74] := by
      refine @Structure.array _ _ _ [0x92] [[0xa2, 0x6b, 0x73], [0xa1, 0x74]] (.values 2)
        (.cons ⟨_, rfl, ?_⟩ (.cons ⟨_, rfl, ?_⟩ .nil))
      · exact ⟨[0xa2], .inl (.letters 2), by decide +kernel⟩
      · exact ⟨[0xa1], .inl (.letters 1), by decide +kernel⟩
    have hkey : Blob 1022 [0x6b] [0x91, 0x6b] :=
      .integers (@Sequence.array _ _ _ _ _ [[0x6b]] (.values 1)
        (.cons (Or.inl (.number 0x6b)) .nil))
    have hkind : Key editKinds (some 2) [2] := .number (by decide) (.number 2)
    have hedits : Sequence EditForm 1022 [.deletePartition] [0x91, 2] :=
      @Sequence.array _ _ _ _ _ [[2]] (.values 1) (.cons (.deletePartition hkind) .nil)
    refine @Structure.map _ _ _ [0x84] ((none, _) :: plainPairs) (.pairs 4) ?_ (by decide)
    simp only [plainPairs, List.forall_mem_cons]
    exact ⟨.unknown hunknown (whole_nested 1021),
      .known (.number (by decide) (.number 0)) ⟨_, rfl, htable⟩,
      .known (.number (by decide) (.number 1)) ⟨_, rfl, hkey⟩,
      .known (.number (by decide) (.number 2)) ⟨_, rfl, hedits⟩, List.forall_mem_nil _⟩
  have hset : SetForm 1024 [⟨⟨"ks", "t"⟩, [0x6b], [.deletePartition]⟩] ([0x91]
      ++ [0x84 :: content ((none, [0xa2, 0x7a, 0x7a] ++ nested 1021) :: plainPairs)].flatten) :=
    .array (.values 1) (.cons hdeep .nil)
  have hdocument : ∀ pair, documentOf (pair :: plainPairs)
      = [0x91] ++ [0x84 :: content (pair :: plainPairs)].flatten := by
    intro pair
    rw [List.flatten_cons, List.flatten_nil, List.append_nil]
    rfl
  -- What is left is to run the reader, which comes to its limit.
  rw [← hdocument] at hset
  have hrefused : ∀ payload, (MutationSet.read payload).isNone = true →
      ∃ what, messagePack.decode payload = .error (.malformed ⟨2⟩ payload.length what) := by
    refine fun payload hnone => malformed_of_readWhole fun ms hread => ?_
    rw [hread] at hnone
    exact nomatch hnone
  have hmalformed := hrefused (documentOf ((none, [0xa2, 0x7a, 0x7a] ++ nested 1021) :: plainPairs))
    (by decide +kernel)
  have hlength : (documentOf ((none, [0xa2, 0x7a, 0x7a] ++ nested 1021) :: plainPairs)).length
      = 1040 := by decide +kernel
  rw [hlength] at hmalformed
  exact ⟨rfl, ⟨hset, hmalformed⟩, whole_nested 0, _, rfl⟩

end Format

end BatchJournal
