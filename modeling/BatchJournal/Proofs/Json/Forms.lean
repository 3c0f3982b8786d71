import BatchJournal.Proofs.Json.Parsing
import BatchJournal.Proofs.Json.Writing

namespace BatchJournal

/-!
# JSON forms round trip

The JSON values that stand for a value of the journal are its forms: a structure is an array of its
fields, or an object in which each of them is found once, in any order and among others.  Every form
is read as the value, and what is written is a document of a form.  An object that misses a field or
repeats one is a form of nothing, and so is an array with fewer or more elements than fields.

* `JsonForm.Structure`, `JsonForm.Flawed` — the forms of a structure, and what misses or repeats one
  of its fields.
* `JsonForm.MutationForm`, `JsonForm.EditForm` — the forms of mutations and edits.
* `JsonForm.RoundTrips` — what is written is read back, as is every document of a form.
* `JsonForm.forms_round_trip` — mutations, edits, tables, ids, times and versions do.
-/

namespace JsonForm

/-! ### Structures -/

/-- **The forms of a structure** with the fields `names`: an array of their `values`, or an object
    in which each of them is found once under its name. -/
inductive Structure (names : List String) (values : List Json) : Json → Prop
  /-- The fields in order. -/
  | array (length_eq : values.length = names.length) : Structure names values (.array values)
  /-- The fields by name, in any order and among others. -/
  | object {pairs : List (String × Json)} (length_eq : values.length = names.length)
      (once : (pairs.filter fun p => p.1 ∈ names).Perm (names.zip values)) :
      Structure names values (.object (pairs.map fun p => (some p.1, p.2)))

/-- **What misses a field or repeats one:** neither an array of so many values as `names` nor an
    object with each of them once. -/
inductive Flawed (names : List String) : Json → Prop
  /-- An array of fewer elements, or of more. -/
  | array {values : List Json} (length_ne : values.length ≠ names.length) :
      Flawed names (.array values)
  /-- An object in which a field is not found once. -/
  | object {pairs : List (Option String × Json)} {name : String} (is_field : name ∈ names)
      (not_once : (pairs.filter fun p => p.1 = some name).length ≠ 1) :
      Flawed names (.object pairs)

theorem named_map (pairs : List (String × Json)) :
    named (pairs.map fun p => (some p.1, p.2)) = some pairs := by
  induction pairs with
  | nil => rfl
  | cons p pairs ih =>
    rw [List.map_cons, named, ih]
    rfl

/-- Names that are all texts are those texts: `pairs` is `ps` under `some`. -/
theorem eq_of_named {pairs : List (Option String × Json)} {ps : List (String × Json)}
    (h : named pairs = some ps) : pairs = ps.map fun p => (some p.1, p.2) := by
  induction pairs generalizing ps with
  | nil =>
    obtain rfl := Option.some.inj h
    rfl
  | cons p pairs ih =>
    obtain ⟨_ | name, v⟩ := p
    · exact nomatch h
    · obtain ⟨ps', hps', rfl⟩ := Option.map_eq_some_iff.1 h
      rw [List.map_cons, ih hps']

/-- A field is found among `values` that are paired with different `names`. -/
theorem filter_zip {names : List String} (hnodup : names.Nodup) {values : List Json} {name : String}
    {v : Json} (h : (name, v) ∈ names.zip values) :
    (names.zip values).filter (fun p => p.1 = name) = [(name, v)] := by
  induction names generalizing values with
  | nil => exact nomatch h
  | cons first names ih =>
    obtain ⟨hnew, hnodup'⟩ := List.nodup_cons.1 hnodup
    cases values with
    | nil => exact nomatch h
    | cons v' values =>
      rw [List.zip_cons_cons] at h ⊢
      -- The name is the first one, and then no other, or it is among those behind.
      rcases List.mem_cons.1 h with heq | hmem
      · obtain ⟨rfl, rfl⟩ := Prod.mk.inj heq
        have hnone : (names.zip values).filter (fun p => p.1 = name) = [] := by
          refine List.filter_eq_nil_iff.2 fun p hp hname => hnew ?_
          obtain rfl := of_decide_eq_true hname
          exact (List.of_mem_zip hp).1
        rw [List.filter_cons_of_pos (by simp), hnone]
      · have hne : first ≠ name := by
          rintro rfl
          exact hnew (List.of_mem_zip hmem).1
        rw [List.filter_cons_of_neg (by simpa using hne)]
        exact ih hnodup' hmem

/-- Results one by one are results of the whole: `as.mapM f` is `some bs`. -/
theorem mapM_eq_some {α β : Type} {f : α → Option β} {as : List α} {bs : List β}
    (h : List.Forall₂ (fun a b => f a = some b) as bs) : as.mapM f = some bs := by
  induction h with
  | nil => rfl
  | cons h _ ih =>
    rw [List.mapM_cons, h, ih]
    rfl

/-- Without some result there is none of the whole: `as.mapM f` is `none`. -/
theorem mapM_eq_none {α β : Type} {f : α → Option β} {as : List α} {a : α} (ha : a ∈ as)
    (h : f a = none) : as.mapM f = none := by
  induction as with
  | nil => exact nomatch ha
  | cons a' as ih =>
    rw [List.mapM_cons]
    rcases List.mem_cons.1 ha with rfl | ha
    · rw [h]
      rfl
    · rw [ih ha]
      cases f a' <;> rfl

/-- **The fields of a structure** are read from every form: `fields` gives `values`. -/
theorem fields_of_structure {names : List String} (hnodup : names.Nodup) {values : List Json}
    {j : Json} (h : Structure names values j) : fields names j = some values := by
  cases h with
  | array length_eq => exact if_pos length_eq
  | @object pairs length_eq once =>
    show (named _).bind _ = _
    rw [named_map]
    refine mapM_eq_some (List.forall₂_iff_zip.2 ⟨length_eq.symm, fun {name v} hmem => ?_⟩)
    have hfilter : (pairs.filter fun p => p.1 = name) = [(name, v)] := by
      have hname := (List.of_mem_zip hmem).1
      have honce := once.filter fun p => decide (p.1 = name)
      rw [filter_zip hnodup hmem, List.filter_filter] at honce
      rw [← List.perm_singleton.1 honce]
      refine List.filter_congr fun p _ => ?_
      by_cases heq : p.1 = name
      · simp [heq, hname]
      · simp [heq]
    rw [fieldOf, hfilter]

/-- **A flawed structure** has no fields: `fields` gives `none`. -/
theorem fields_of_flawed {names : List String} {j : Json} (h : Flawed names j) :
    fields names j = none := by
  cases h with
  | array length_ne => exact if_neg length_ne
  | @object pairs name is_field not_once =>
    show (named pairs).bind _ = none
    cases hnamed : named pairs with
    | none => rfl
    | some ps =>
      refine mapM_eq_none is_field ?_
      rw [eq_of_named hnamed, List.filter_map, List.length_map] at not_once
      have hfilter : (ps.filter fun p => p.1 = name).length ≠ 1 := by
        simpa [Function.comp_def] using not_once
      unfold fieldOf
      split
      · rename_i hsingle
        rw [hsingle] at hfilter
        exact absurd rfl hfilter
      · rfl

/-! ### The forms of what a batch carries -/

/-- The form of a text: `Json.text`. -/
abbrev textForm (s : String) : Json := .text (some s)

/-- The form of a byte string: an array of `Json.natural`. -/
abbrev bytesForm (bs : Bytes) : Json := .array (bs.map fun b => .natural b.toNat)

/-- The forms of a table: a structure of `keyspace` and `table`. -/
abbrev TableForm (t : TableName) : Json → Prop :=
  Structure ["keyspace", "table"] [textForm t.keyspace, textForm t.table]

/-- **The forms of an edit:** an object of one pair, from the kind to its fields, or the kind alone
    if it has none, as `deletePartition`. -/
inductive EditForm : Edit → Json → Prop
  /-- A cell write. -/
  | upsert {clustering column : String} {value : Bytes} {content : Json}
      (fields : Structure ["clustering", "column", "value"]
        [textForm clustering, textForm column, bytesForm value] content) :
      EditForm (.upsert clustering column value) (.object [(some "Upsert", content)])
  /-- A cell deletion. -/
  | deleteCell {clustering column : String} {content : Json}
      (fields : Structure ["clustering", "column"] [textForm clustering, textForm column] content) :
      EditForm (.deleteCell clustering column) (.object [(some "DeleteCell", content)])
  /-- A partition deletion by its kind. -/
  | deletePartition : EditForm .deletePartition (textForm "DeletePartition")
  /-- A partition deletion with no fields under its kind. -/
  | deletePartitionNull : EditForm .deletePartition (.object [(some "DeletePartition", .null)])

/-- **The forms of a mutation:** a structure of `table`, `key` and `ops`. -/
inductive MutationForm (m : Mutation) : Json → Prop
  /-- A structure of forms of its fields. -/
  | mk {table j : Json} {edits : List Json} (table_form : TableForm m.table table)
      (edits_form : List.Forall₂ EditForm m.edits edits)
      (fields : Structure ["table", "key", "ops"] [table, bytesForm m.key, .array edits] j) :
      MutationForm m j

/-- Edits that miss a field or repeat one: `upsert` and `deleteCell` have some. -/
inductive FlawedEdit : Json → Prop
  /-- A cell write. -/
  | upsert {content : Json} (fields : Flawed ["clustering", "column", "value"] content) :
      FlawedEdit (.object [(some "Upsert", content)])
  /-- A cell deletion. -/
  | deleteCell {content : Json} (fields : Flawed ["clustering", "column"] content) :
      FlawedEdit (.object [(some "DeleteCell", content)])

/-- Mutations that miss a field or repeat one, or in which the table or an edit does: `table`, `key`
    and `ops`. -/
inductive FlawedMutation : Json → Prop
  /-- A field of its own. -/
  | own {j : Json} (fields : Flawed ["table", "key", "ops"] j) : FlawedMutation j
  /-- A field of the table. -/
  | table {table key edits j : Json}
      (fields : Structure ["table", "key", "ops"] [table, key, edits] j)
      (table_flawed : Flawed ["keyspace", "table"] table) : FlawedMutation j
  /-- A field of an edit. -/
  | edits {table key e j : Json} {edits : List Json}
      (fields : Structure ["table", "key", "ops"] [table, key, .array edits] j)
      (is_edit : e ∈ edits) (edit_flawed : FlawedEdit e) : FlawedMutation j

/-! ### Reading -/

theorem read_bytesForm (bs : Bytes) : (read (bytesForm bs) : Option Bytes) = some bs := by
  refine mapM_eq_some (List.forall₂_map_left_iff.2 (List.forall₂_same.2 fun b _ => ?_))
  show (natural 256 (.natural b.toNat)).map UInt8.ofNat = some b
  rw [natural, if_pos b.toNat_lt, Option.map_some, UInt8.ofNat_toNat]

theorem read_tableForm {t : TableName} {j : Json} (h : TableForm t j) : read j = some t := by
  show (fields ["keyspace", "table"] j).bind _ = some t
  rw [fields_of_structure (by decide) h]
  rfl

theorem read_editForm {e : Edit} {j : Json} (h : EditForm e j) : read j = some e := by
  cases h with
  | @upsert clustering column value content h =>
    show (fields ["clustering", "column", "value"] content).bind _ = _
    rw [fields_of_structure (by decide) h]
    show ((read (bytesForm value) : Option Bytes).bind fun value =>
      some (Edit.upsert clustering column value)) = _
    rw [read_bytesForm]
    rfl
  | @deleteCell clustering column content h =>
    show (fields ["clustering", "column"] content).bind _ = _
    rw [fields_of_structure (by decide) h]
    rfl
  | deletePartition => rfl
  | deletePartitionNull => rfl

/-- The fields of a mutation, read one after another: `read` of the structure is `read` of its
    parts. -/
theorem read_mutation {table key edits j : Json}
    (h : Structure ["table", "key", "ops"] [table, key, edits] j) :
    (read j : Option Mutation) = (read table).bind fun table => (read key).bind fun key =>
      (read edits).bind fun edits => some ⟨table, key, edits⟩ := by
  show (fields ["table", "key", "ops"] j).bind _ = _
  rw [fields_of_structure (by decide) h]
  rfl

theorem read_mutationForm {m : Mutation} {j : Json} (h : MutationForm m j) : read j = some m := by
  cases h with
  | @mk table j edits table_form edits_form h =>
    have hedits : read (.array edits) = some m.edits := by
      exact mapM_eq_some (edits_form.imp fun e j => read_editForm).flip
    rw [read_mutation h, read_tableForm table_form, read_bytesForm, hedits]
    rfl

theorem read_flawedTable {j : Json} (h : Flawed ["keyspace", "table"] j) :
    (read j : Option TableName) = none := by
  show (fields ["keyspace", "table"] j).bind _ = none
  rw [fields_of_flawed h]
  rfl

theorem read_flawedEdit {j : Json} (h : FlawedEdit j) : (read j : Option Edit) = none := by
  cases h with
  | @upsert content h =>
    show (fields ["clustering", "column", "value"] content).bind _ = none
    rw [fields_of_flawed h]
    rfl
  | @deleteCell content h =>
    show (fields ["clustering", "column"] content).bind _ = none
    rw [fields_of_flawed h]
    rfl

theorem read_flawedMutation {j : Json} (h : FlawedMutation j) :
    (read j : Option Mutation) = none := by
  cases h with
  | own h =>
    show (fields ["table", "key", "ops"] j).bind _ = none
    rw [fields_of_flawed h]
    rfl
  | table h table_flawed =>
    rw [read_mutation h, read_flawedTable table_flawed]
    rfl
  | @edits table key e j edits h is_edit edit_flawed =>
    have hedits : (read (.array edits) : Option (List Edit)) = none :=
      mapM_eq_none is_edit (read_flawedEdit edit_flawed)
    rw [read_mutation h, hedits]
    cases (read table : Option TableName) <;> cases (read key : Option Bytes) <;> rfl

/-! ### Writing -/

/-- **Written fields** are a form of them: `writeFields` spells a `Structure`. -/
theorem spelled_structure {fields : List (String × String × Json)}
    (h : ∀ f ∈ fields, Json.Spelled f.2.2 f.2.1.toList) :
    ∃ j, Structure (fields.map (·.1)) (fields.map (·.2.2)) j
      ∧ Json.Spelled j (writeFields (fields.map fun f => (f.1, f.2.1))).toList := by
  refine ⟨_, ?_, Json.spelled_writeFields h⟩
  have hpairs : (fields.map (·.1)).zip (fields.map (·.2.2)) = fields.map fun f => (f.1, f.2.2) :=
    List.zip_map' ..
  have hobject : Structure (fields.map (·.1)) (fields.map (·.2.2))
      (.object ((fields.map fun f => (f.1, f.2.2)).map fun p => (some p.1, p.2))) := by
    refine .object (by simp) ?_
    rw [hpairs, List.filter_eq_self.2 fun p hp => ?_]
    obtain ⟨f, hf, rfl⟩ := List.mem_map.1 hp
    exact decide_eq_true (List.mem_map_of_mem hf)
  rwa [List.map_map] at hobject

theorem spelled_text (s : String) : Json.Spelled (textForm s) (Json.quote s).toList :=
  .text (Json.quoted_quote s)

theorem spelled_bytes (bs : Bytes) : Json.Spelled (bytesForm bs) (write bs).toList :=
  Json.spelled_writeList (List.forall₂_map_right_iff.2 (List.forall₂_same.2 fun b _ =>
    Json.spelled_toString b.toNat))

theorem spelled_table (t : TableName) : ∃ j, TableForm t j ∧ Json.Spelled j (write t).toList :=
  @spelled_structure [("keyspace", Json.quote t.keyspace, textForm t.keyspace),
    ("table", Json.quote t.table, textForm t.table)] (by simp [spelled_text])

/-- One pair, from a kind to its fields, is what `writeFields` spells. -/
theorem spelled_kind {kind text : String} {content : Json} (h : Json.Spelled content text.toList) :
    Json.Spelled (.object [(some kind, content)]) (writeFields [(kind, text)]).toList :=
  @Json.spelled_writeFields [(kind, text, content)] (by simpa using h)

theorem spelled_edit (e : Edit) : ∃ j, EditForm e j ∧ Json.Spelled j (write e).toList := by
  cases e with
  | upsert clustering column value =>
    obtain ⟨content, hcontent, hspelled⟩ := @spelled_structure
      [("clustering", Json.quote clustering, textForm clustering),
        ("column", Json.quote column, textForm column), ("value", write value, bytesForm value)]
      (by simp [spelled_text, spelled_bytes])
    exact ⟨_, .upsert hcontent, spelled_kind hspelled⟩
  | deleteCell clustering column =>
    obtain ⟨content, hcontent, hspelled⟩ := @spelled_structure
      [("clustering", Json.quote clustering, textForm clustering),
        ("column", Json.quote column, textForm column)] (by simp [spelled_text])
    exact ⟨_, .deleteCell hcontent, spelled_kind hspelled⟩
  | deletePartition => exact ⟨_, .deletePartition, spelled_text _⟩

theorem spelled_mutation (m : Mutation) :
    ∃ j, MutationForm m j ∧ Json.Spelled j (write m).toList := by
  obtain ⟨table, htable, hspelled⟩ := spelled_table m.table
  obtain ⟨edits, hedits⟩ : ∃ js, List.Forall₂
      (fun e j => EditForm e j ∧ Json.Spelled j (write e).toList) m.edits js := by
    induction m.edits with
    | nil => exact ⟨[], .nil⟩
    | cons e es ih =>
      obtain ⟨j, hj⟩ := spelled_edit e
      obtain ⟨js, hjs⟩ := ih
      exact ⟨j :: js, .cons hj hjs⟩
  have hform : List.Forall₂ EditForm m.edits edits := hedits.imp fun e j h => h.1
  have hwritten : Json.Spelled (.array edits) (write m.edits).toList :=
    Json.spelled_writeList (hedits.imp fun e j h => h.2)
  obtain ⟨j, hj, hmutation⟩ := @spelled_structure
    [("table", write m.table, table), ("key", write m.key, bytesForm m.key),
      ("ops", write m.edits, .array edits)]
    (by simp [hspelled, spelled_bytes, hwritten])
  exact ⟨j, .mk htable hform hj, hmutation⟩

/-! ### Round trips -/

/-- **Round trips in JSON:** `parse` reads back what `write` writes, reads every document of a
    `form` as its value, and refuses a `flawed` one. -/
structure RoundTrips (α : Type) [JsonForm α] (form : α → Json → Prop) (flawed : Json → Prop) :
    Prop where
  /-- What is written is read back. -/
  written : ∀ a : α, parse α (write a) = some a
  /-- Every document of a form is read. -/
  reads : ∀ (a : α) j s, form a j → Json.Document j s → parse α s = some a
  /-- A flawed document is refused. -/
  refuses : ∀ j s, flawed j → Json.Document j s → parse α s = none

/-- `RoundTrips` follows from what `read` makes of the forms, and from what `write` spells. -/
theorem roundTrips_of {α : Type} [JsonForm α] {form : α → Json → Prop} {flawed : Json → Prop}
    (hread : ∀ a j, form a j → read j = some a)
    (hrefuses : ∀ j, flawed j → (read j : Option α) = none)
    (hwrite : ∀ a, ∃ j, form a j ∧ Json.Spelled j (write a).toList) : RoundTrips α form flawed := by
  have hreads : ∀ (a : α) j s, form a j → Json.Document j s → parse α s = some a := by
    intro a j s hform hdocument
    rw [parse, Json.parse_document hdocument]
    exact hread a j hform
  refine ⟨fun a => ?_, hreads, fun j s hflawed hdocument => ?_⟩
  · obtain ⟨j, hform, hspelled⟩ := hwrite a
    have hdocument : Json.Document j (write a) := by
      have hbare := @Json.Document.mk j [] _ [] nofun hspelled nofun
      rwa [List.append_nil, List.nil_append, String.ofList_toList] at hbare
    exact hreads a j _ hform hdocument
  · rw [parse, Json.parse_document hdocument]
    exact hrefuses j hflawed

/-- **JSON forms round trip,** of mutations, edits, tables, ids, times and versions: each has
    `RoundTrips`. Ids, times and versions are written as one value and have no fields. -/
theorem forms_round_trip :
    RoundTrips Mutation MutationForm FlawedMutation ∧ RoundTrips Edit EditForm FlawedEdit
      ∧ RoundTrips TableName TableForm (Flawed ["keyspace", "table"])
      ∧ RoundTrips BatchId (fun id j => j = textForm id.text) (fun _ => False)
      ∧ RoundTrips Timestamp (fun t j => j = .natural t.micros.toNat) (fun _ => False)
      ∧ RoundTrips FormatVersion (fun v j => j = .natural v.number.toNat) (fun _ => False) := by
  refine ⟨?_, ?_, ?_, ?_, ?_, ?_⟩
  · exact roundTrips_of (fun _ _ => read_mutationForm) (fun _ => read_flawedMutation)
      spelled_mutation
  · exact roundTrips_of (fun _ _ => read_editForm) (fun _ => read_flawedEdit) spelled_edit
  · exact roundTrips_of (fun _ _ => read_tableForm) (fun _ => read_flawedTable) spelled_table
  · -- Ids, times and versions have no fields, so nothing of them is flawed.
    refine roundTrips_of ?_ (fun _ h => h.elim) fun id => ⟨_, rfl, spelled_text id.text⟩
    rintro id _ rfl
    show (some id.text).bind BatchId.ofText? = some id
    rw [Option.bind_some, BatchId.ofText?_text]
  · refine roundTrips_of ?_ (fun _ h => h.elim) fun t => ⟨_, rfl, Json.spelled_toString _⟩
    rintro t _ rfl
    show (natural UInt64.size (.natural t.micros.toNat)).map _ = some t
    rw [natural, if_pos t.micros.toNat_lt]
    simp
  · refine roundTrips_of ?_ (fun _ h => h.elim) fun v => ⟨_, rfl, Json.spelled_toString _⟩
    rintro v _ rfl
    show (natural UInt32.size (.natural v.number.toNat)).map _ = some v
    rw [natural, if_pos v.number.toNat_lt]
    simp

/-- A mutation whose fields stand in another order, with blanks, with a value that is not known, and
    with a table that is an array; and one with its key twice. -/
theorem forms_round_trip_at :
    parse Mutation ("\x7b\"ops\" : [\"DeletePartition\"],\"x\":[\x7b\x7d,-1.5e3],\"key\":[97],"
        ++ "\"table\":[\"ks\",\"t\"]\x7d\n")
        = some ⟨⟨"ks", "t"⟩, [97], [.deletePartition]⟩
      ∧ parse Mutation "\x7b\"key\":[97],\"key\":[97],\"ops\":[],\"table\":[\"ks\",\"t\"]\x7d"
        = none := by
  have htable : Json.Spelled (.array [textForm "ks", textForm "t"]) "[\"ks\",\"t\"]".toList :=
    @Json.spelled_elements [⟨textForm "ks", (Json.quote "ks").toList⟩,
      ⟨textForm "t", (Json.quote "t").toList⟩] (by simp [spelled_text])
  have hops : Json.Spelled (.array [textForm "DeletePartition"]) "[\"DeletePartition\"]".toList :=
    @Json.spelled_elements [⟨textForm "DeletePartition", (Json.quote "DeletePartition").toList⟩]
      (by simp [spelled_text])
  have hkey : Json.Spelled (bytesForm [97]) "[97]".toList := spelled_bytes [97]
  have hdigits : ∀ c, Json.digit c = true → Json.Digits [c] := fun c hc =>
    ⟨List.cons_ne_nil _ _, by simpa using hc⟩
  have hnumber : Json.Spelled .number "-1.5e3".toList :=
    .numeral (@Json.Numeral.number ['-'] ['1'] ['.', '5'] ['e', '3'] (.inr rfl)
      ⟨hdigits '1' rfl, fun _ => rfl⟩ (.some (hdigits '5' rfl))
      (.plain (.inl rfl) (hdigits '3' rfl)) (by simp))
  have hempty : Json.Spelled (.object []) "\x7b\x7d".toList := @Json.Spelled.noMembers [] nofun
  have hunknown : Json.Spelled (.array [.object [], .number]) "[\x7b\x7d,-1.5e3]".toList :=
    @Json.spelled_elements [⟨.object [], "\x7b\x7d".toList⟩, ⟨.number, "-1.5e3".toList⟩]
      (List.forall_mem_cons.2 ⟨hempty, List.forall_mem_singleton.2 hnumber⟩)
  -- The four fields stand in the reverse order, one of them of no name.
  have hfields : Structure ["table", "key", "ops"] [.array [textForm "ks", textForm "t"],
      bytesForm [97], .array [textForm "DeletePartition"]] _ :=
    @Structure.object _ _ [("ops", .array [textForm "DeletePartition"]),
      ("x", .array [.object [], .number]), ("key", bytesForm [97]),
      ("table", .array [textForm "ks", textForm "t"])] rfl
      (by simpa using List.reverse_perm [("table", _), ("key", _), ("ops", _)])
  have hmembers := @Json.spelled_members
    [⟨some "ops", (Json.quote "ops").toList, [' '], [' '], _, _⟩,
      ⟨some "x", (Json.quote "x").toList, [], [], _, _⟩,
      ⟨some "key", (Json.quote "key").toList, [], [], _, _⟩,
      ⟨some "table", (Json.quote "table").toList, [], [], _, _⟩]
    (by simp [Json.quoted_quote]) (by simp [Json.Blanks, Json.isBlank])
    (List.forall_mem_cons.2 ⟨hops, List.forall_mem_cons.2 ⟨hunknown, List.forall_mem_cons.2
      ⟨hkey, List.forall_mem_singleton.2 htable⟩⟩⟩)
  have hform : MutationForm ⟨⟨"ks", "t"⟩, [97], [.deletePartition]⟩ _ :=
    .mk (.array rfl) (.cons .deletePartition .nil) hfields
  have hdocument := @Json.Document.mk _ [] _ ['\n'] nofun hmembers
    (by simp [Json.Blanks, Json.isBlank])
  constructor
  · refine forms_round_trip.1.reads _ _ _ hform ?_
    convert hdocument using 1
    · rfl
    · decide +kernel
  · -- The key stands there twice, so no field can be told.
    have htwice := @Json.spelled_members
      [⟨some "key", (Json.quote "key").toList, [], [], _, _⟩,
        ⟨some "key", (Json.quote "key").toList, [], [], _, _⟩,
        ⟨some "ops", (Json.quote "ops").toList, [], [], .array [], "[]".toList⟩,
        ⟨some "table", (Json.quote "table").toList, [], [], _, _⟩]
      (by simp [Json.quoted_quote]) (by simp [Json.Blanks, Json.isBlank])
      (List.forall_mem_cons.2 ⟨hkey, List.forall_mem_cons.2 ⟨hkey, List.forall_mem_cons.2
        ⟨@Json.Spelled.noElements [] nofun, List.forall_mem_singleton.2 htable⟩⟩⟩)
    have hflawed : FlawedMutation (.object [(some "key", bytesForm [97]),
        (some "key", bytesForm [97]), (some "ops", .array []),
        (some "table", .array [textForm "ks", textForm "t"])]) :=
      .own (.object (by decide : "key" ∈ ["table", "key", "ops"]) (by simp))
    refine forms_round_trip.1.refuses _ _ hflawed ?_
    convert @Json.Document.mk _ [] _ [] nofun htwice nofun using 1
    · rfl
    · decide +kernel

/-- **What is no form:** a pair beside the kind of an edit, and an array around a value that is
    written by itself. -/
theorem refuses_beside_kind :
    parse Edit "\x7b\"DeleteCell\":[\"c\",\"v\"]\x7d" = some (.deleteCell "c" "v")
      ∧ parse Edit "\x7b\"DeleteCell\":[\"c\",\"v\"],\"x\":1\x7d" = none
      ∧ parse Timestamp "5" = some ⟨5⟩ ∧ parse Timestamp "[5]" = none := by
  decide +kernel

end JsonForm

end BatchJournal
