import BatchJournal.Proofs.Codec.Spelling

namespace BatchJournal

/-!
# Structures in MessagePack

A structure is spelled as an array of its fields or as a map that holds each of them once, in any
order and among values under keys that are not known.  While a map is read, what counts is which
fields have been filled: a field that was filled already is refused, one that is still unfilled at
the end is missed, and in between nothing depends on the order.

* `Spelling.Structure`, `Spelling.Flawed` — the spellings of a structure, and the beginnings of
  those that miss a field or repeat one.
* `MutationSet.Record` — what is to be known of the reader of a structure.
* `MutationSet.Record.reads_structure` — every spelling is read.
* `MutationSet.Record.refuses_flawed` — every flaw is refused, whatever follows it.
-/

open Reader

namespace Spelling

/-! ### Structures -/

section Structures

variable (names : List String)

/-- A pair of a map: a known key and the value of its `field`, or an unknown key and any `Whole`
    value. -/
inductive Pair (field : Nat → Bytes → Prop) (levels : Nat) : Option Nat → Bytes → Prop
  /-- A field under its key. -/
  | known {place : Nat} {key value : Bytes} (key_spelled : Key names (some place) key)
      (value_spelled : field place value) : Pair field levels (some place) (key ++ value)
  /-- A value under a key that is of no field. -/
  | unknown {key value : Bytes} (key_spelled : Key names none key)
      (value_whole : Head.Whole levels value) : Pair field levels none (key ++ value)

/-- Pairs are spelled more widely if fields are: from `field` to `field'`. -/
theorem Pair.imp {names : List String} {field field' : Nat → Bytes → Prop} {levels : Nat}
    {place : Option Nat} {bs : Bytes} (h : Pair names field levels place bs)
    (h' : ∀ place bs, field place bs → field' place bs) : Pair names field' levels place bs := by
  cases h with
  | known hkey hvalue => exact .known hkey (h' _ _ hvalue)
  | unknown hkey hvalue => exact .unknown hkey hvalue

/-- The pairs of a map, each with `some` place if it is of a field. -/
abbrev Pairs := List (Option Nat × Bytes)

/-- The `places` of the fields among some pairs. -/
def places (pairs : Pairs) : List Nat := pairs.filterMap Prod.fst

/-- The bytes of some pairs, one behind the other. -/
def content (pairs : Pairs) : Bytes := pairs.flatMap Prod.snd

theorem places_cons (p : Option Nat × Bytes) (pairs : Pairs) :
    places (p :: pairs) = p.1.toList ++ places pairs := by
  obtain ⟨place, bs⟩ := p
  cases place <;> rfl

theorem content_cons (p : Option Nat × Bytes) (pairs : Pairs) :
    content (p :: pairs) = p.2 ++ content pairs := List.flatMap_cons

/-- A key that is of a field is of one that there is: `place < names.length`. -/
theorem Key.lt_length {names : List String} {place : Nat} {key : Bytes}
    (h : Key names (some place) key) : place < names.length := by
  cases h with
  | name known spelled => exact (List.getElem?_eq_some_iff.1 known).1
  | number known spelled => exact known

/-- **The spellings of a structure** whose fields are spelled by `field`, one level down: an `array`
    of the fields in order, or a `map` of pairs among which each field is found once. -/
inductive Structure (field : Nat → Nat → Bytes → Prop) : Nat → Bytes → Prop
  /-- An array of the fields. -/
  | array {levels : Nat} {front : Bytes} {values : List Bytes}
      (spelled : Head.Spelled front (.array names.length))
      (fields : List.Forall₂ (field levels) (List.range names.length) values) :
      Structure field (levels + 1) (front ++ values.flatten)
  /-- A map with every field once. -/
  | map {levels : Nat} {front : Bytes} {pairs : Pairs}
      (spelled : Head.Spelled front (.map pairs.length))
      (each : ∀ p ∈ pairs, Pair names (field levels) levels p.1 p.2)
      (once : (places pairs).Perm (List.range names.length)) :
      Structure field (levels + 1) (front ++ content pairs)

/-- **The beginnings of flawed structures:** maps up to the place where a field is found to be
    missing or repeated, and structures up to the flaw in one of their fields, which is what
    `flawed` describes. -/
inductive Flawed (field flawed : Nat → Nat → Bytes → Prop) : Nat → Bytes → Prop
  /-- A whole map without some field. -/
  | missing {levels place : Nat} {front : Bytes} {pairs : Pairs}
      (spelled : Head.Spelled front (.map pairs.length))
      (each : ∀ p ∈ pairs, Pair names (field levels) levels p.1 p.2)
      (is_field : place < names.length) (missed : place ∉ places pairs) :
      Flawed field flawed (levels + 1) (front ++ content pairs)
  /-- A map up to the second key of one field. -/
  | repeated {levels count place : Nat} {front key : Bytes} {pairs : Pairs}
      (spelled : Head.Spelled front (.map count)) (more : pairs.length < count)
      (each : ∀ p ∈ pairs, Pair names (field levels) levels p.1 p.2)
      (again : place ∈ places pairs) (key_spelled : Key names (some place) key) :
      Flawed field flawed (levels + 1) (front ++ (content pairs ++ key))
  /-- An array of fields up to the flaw in one of them. -/
  | inArray {levels place : Nat} {front value : Bytes} {values : List Bytes}
      (spelled : Head.Spelled front (.array names.length)) (is_field : place < names.length)
      (fields : List.Forall₂ (field levels) (List.range place) values)
      (value_flawed : flawed levels place value) :
      Flawed field flawed (levels + 1) (front ++ (values.flatten ++ value))
  /-- A map up to the flaw in one of its fields. -/
  | inMap {levels count place : Nat} {front key value : Bytes} {pairs : Pairs}
      (spelled : Head.Spelled front (.map count)) (more : pairs.length < count)
      (each : ∀ p ∈ pairs, Pair names (field levels) levels p.1 p.2)
      (key_spelled : Key names (some place) key) (value_flawed : flawed levels place value) :
      Flawed field flawed (levels + 1) (front ++ (content pairs ++ (key ++ value)))

end Structures

end Spelling

namespace Reader

variable {σ : Type} {step : σ → Reader σ} {s s' : σ} {bs : Bytes} {n : Nat}

/-- A `step` that is read off the front, and those behind it: `fold` of `n + 1` goes on as `fold` of
    `n`. -/
theorem Reads.fold_succ (h : (step s).Reads bs s') (rest : Bytes) :
    fold step s (n + 1) (bs ++ rest) = fold step s' n rest := by
  simp only [fold, h rest]

/-- Steps that are read off the front, and those behind them: `fold` of `n + more` goes on as `fold`
    of `more`. -/
theorem Reads.fold_add (h : (fold step s n).Reads bs s') (more : Nat) (rest : Bytes) :
    fold step s (n + more) (bs ++ rest) = fold step s' more rest := by
  have hadd : ∀ (n : Nat) (s : σ) (bs : Bytes),
      fold step s (n + more) bs = (fold step s n bs).bind fun p => fold step p.1 more p.2 := by
    intro n
    induction n with
    | zero =>
      intro s bs
      rw [Nat.zero_add]
      rfl
    | succ n ih =>
      intro s bs
      rw [Nat.add_right_comm]
      simp only [fold]
      cases step s bs with
      | none => rfl
      | some p => exact ih p.1 p.2
  rw [hadd, h rest]
  rfl

end Reader

namespace MutationSet

open Spelling

/-! ### Readers of structures -/

/-- **The reader of a structure,** by what it does with one field at a time.  The fields of a value
    `a : α` are put into a state of `σ` in any order, and the full state gives a value of `β`. -/
structure Record (σ α β : Type) where
  /-- The names of the fields. -/
  names : List String
  /-- The state before any field is read. -/
  start : σ
  /-- Reads the field of a place, `levels` levels below the limit. -/
  field : Nat → σ → Nat → Reader σ
  /-- The value of the full state. -/
  finish : σ → Option β
  /-- The fields have different names. -/
  distinct : (names.map Utf8.encode).Nodup
  /-- The spellings of the fields of a value, one level down. -/
  spelled : α → Nat → Nat → Bytes → Prop
  /-- The value that is made of the fields. -/
  make : α → β
  /-- The field of a place was read. -/
  filled : σ → Nat → Bool
  /-- Puts the field of a value into its place. -/
  fill : σ → Nat → α → σ
  /-- The fields that were read are those of a value. -/
  agrees : σ → α → Prop
  /-- At the start there is no field. -/
  filled_start : ∀ place < names.length, filled start place = false
  /-- One more field. -/
  filled_fill : ∀ s a, ∀ place < names.length, ∀ other < names.length,
    filled (fill s place a) other = (filled s other || decide (other = place))
  /-- At the start nothing disagrees. -/
  agrees_start : ∀ a, agrees start a
  /-- One more field of the same value. -/
  agrees_fill : ∀ s a place, agrees s a → agrees (fill s place a) a
  /-- A field that is missing is missed. -/
  finish_missing : ∀ s, ∀ place < names.length, filled s place = false → finish s = none
  /-- The fields of a value make it up. -/
  finish_full : ∀ s a, agrees s a → (∀ place < names.length, filled s place = true) →
    finish s = some (make a)
  /-- A field that is missing is read into its place. -/
  reads : ∀ levels s a, ∀ place < names.length, filled s place = false → ∀ bs,
    spelled a levels place bs → (field (levels + 1) s place).Reads bs (fill s place a)
  /-- A field that was read is not read again. -/
  refuses : ∀ levels s, ∀ place < names.length, filled s place = true → ∀ bs,
    field levels s place bs = none

namespace Record

variable {σ α β : Type} (r : Record σ α β)

/-- The reader itself. -/
def read (levels : Nat) : Reader β := do
  Reader.ofOption (r.finish (← readStructure levels r.names r.start (r.field levels)))

/-- **What some fields do to a state:** they fill their `places`, and the state agrees with a value
    that all of them are of. -/
structure Fills (allowed : α → Prop) (s s' : σ) (places : List Nat) : Prop where
  /-- Filled are the places that were and those of the fields. -/
  filled_eq : ∀ place < r.names.length,
    r.filled s' place = (r.filled s place || decide (place ∈ places))
  /-- Fields of the only value that is allowed agree with it. -/
  agrees : ∀ a, (∀ b, allowed b → b = a) → r.agrees s a → r.agrees s' a

variable {r} {allowed : α → Prop} {s s' : σ} {levels : Nat}

theorem Fills.nil : r.Fills allowed s s [] where
  filled_eq place _ := by simp
  agrees _ _ h := h

theorem Fills.single {place : Nat} {a : α} (hplace : place < r.names.length) (ha : allowed a) :
    r.Fills allowed s (r.fill s place a) [place] where
  filled_eq other hother := by
    rw [r.filled_fill s a place hplace other hother]
    simp only [List.mem_singleton]
  agrees b hb hs := by
    obtain rfl := hb a ha
    exact r.agrees_fill s a place hs

theorem Fills.append {middle : σ} {front back : List Nat} (h : r.Fills allowed s middle front)
    (h' : r.Fills allowed middle s' back) : r.Fills allowed s s' (front ++ back) where
  filled_eq place hplace := by
    rw [h'.filled_eq place hplace, h.filled_eq place hplace]
    simp only [List.mem_append, Bool.decide_or, Bool.or_assoc]
  agrees a ha hs := h'.agrees a ha (h.agrees a ha hs)

/-- A place that no field is put into stays free: `filled` is still `false`. -/
theorem Fills.free {places : List Nat} (h : r.Fills allowed s s' places) {place : Nat}
    (hplace : place < r.names.length) (hnew : place ∉ places) :
    r.filled s' place = r.filled s place := by
  rw [h.filled_eq place hplace, decide_eq_false hnew, Bool.or_false]

/-- **Full states:** all fields of one value `a` make it up, and `finish` gives `make a`. -/
theorem Fills.finish_eq {a : α} {places : List Nat} (h : r.Fills (· = a) r.start s' places)
    (hplaces : ∀ place < r.names.length, place ∈ places) : r.finish s' = some (r.make a) := by
  refine r.finish_full s' a (h.agrees a (fun b hb => hb) (r.agrees_start a)) fun place hplace => ?_
  rw [h.filled_eq place hplace, decide_eq_true (hplaces place hplace), Bool.or_true]

/-- **The fields of an array** are read one after another, and what they do is `Fills`. -/
theorem reads_fields {places : List Nat} {values : List Bytes}
    (h : List.Forall₂ (fun place bs => ∃ a, allowed a ∧ r.spelled a levels place bs) places values)
    (hplaces : ∀ place ∈ places, place < r.names.length ∧ r.filled s place = false)
    (hnodup : places.Nodup) :
    ∃ s', (places.foldlM (r.field (levels + 1)) s).Reads values.flatten s'
      ∧ r.Fills allowed s s' places := by
  -- Along the values: each place is still free when its turn comes, for the places are distinct.
  induction h generalizing s with
  | nil => exact ⟨s, .pure s, .nil⟩
  | @cons place bs places values hfield _ ih =>
    obtain ⟨a, ha, hspelled⟩ := hfield
    obtain ⟨hplace, hfree⟩ := hplaces place List.mem_cons_self
    obtain ⟨hnew, hnodup'⟩ := List.nodup_cons.1 hnodup
    have hfirst : r.Fills allowed s (r.fill s place a) [place] := .single hplace ha
    have hmore : ∀ other ∈ places,
        other < r.names.length ∧ r.filled (r.fill s place a) other = false := by
      intro other hother
      obtain ⟨hlt, hother'⟩ := hplaces other (List.mem_cons_of_mem place hother)
      have hne : other ∉ [place] := fun hmem => hnew (List.mem_singleton.1 hmem ▸ hother)
      exact ⟨hlt, (hfirst.free hlt hne).trans hother'⟩
    obtain ⟨s', hreads, hfills⟩ := ih hmore hnodup'
    refine ⟨s', ?_, hfirst.append hfills⟩
    rw [List.foldlM_cons, List.flatten_cons]
    exact (r.reads levels s a place hplace hfree bs hspelled).bind hreads

/-- The pairs of a map whose fields have spellings of values that are `allowed`. -/
abbrev SpelledPair (r : Record σ α β) (allowed : α → Prop) (levels : Nat) (p : Option Nat × Bytes) :
    Prop :=
  Pair r.names (fun place bs => ∃ a, allowed a ∧ r.spelled a levels place bs) levels p.1 p.2

/-- `readPair` reads a pair of a map if its field is missing. -/
theorem reads_pair {p : Option Nat × Bytes} (h : r.SpelledPair allowed levels p)
    (hfree : ∀ place ∈ p.1, r.filled s place = false) :
    ∃ s', (readPair (levels + 1) r.names (r.field (levels + 1)) s).Reads p.2 s'
      ∧ r.Fills allowed s s' p.1.toList := by
  obtain ⟨place, bs⟩ := p
  cases h with
  | known hkey hvalue =>
    obtain ⟨a, ha, hspelled⟩ := hvalue
    refine ⟨r.fill s _ a, ?_, .single hkey.lt_length ha⟩
    exact (reads_keySpelled r.distinct hkey).bind
      (r.reads levels s a _ hkey.lt_length (hfree _ rfl) _ hspelled)
  | unknown hkey hvalue =>
    refine ⟨s, ?_, .nil⟩
    exact (reads_keySpelled r.distinct hkey).bind
      ((Head.skip_whole hvalue).bind_nil (.pure s))

/-- `readPair` refuses a key if its field was read. -/
theorem refuses_key {place : Nat} {key : Bytes} (h : Key r.names (some place) key)
    (hfilled : r.filled s place = true) (levels : Nat) (rest : Bytes) :
    readPair levels r.names (r.field levels) s (key ++ rest) = none := by
  show (readKey r.names (key ++ rest)).bind _ = none
  rw [reads_keySpelled r.distinct h]
  exact r.refuses levels s place h.lt_length hfilled rest

/-- The fields among the pairs of a map are below `r.names.length`. -/
theorem lt_length_of_mem_places {pairs : Pairs} (h : ∀ p ∈ pairs, r.SpelledPair allowed levels p)
    {place : Nat} (hplace : place ∈ places pairs) : place < r.names.length := by
  obtain ⟨⟨_, bs⟩, hmem, rfl⟩ := List.mem_filterMap.1 hplace
  cases h _ hmem with
  | known hkey hvalue => exact hkey.lt_length

/-- **The pairs of a map** are read one after another, up to one whose field was read: either all of
    them fill their places, or `fold` fails. -/
theorem reads_pairs {pairs : Pairs} (h : ∀ p ∈ pairs, r.SpelledPair allowed levels p) (s : σ) :
    (∃ s', (fold (readPair (levels + 1) r.names (r.field (levels + 1))) s pairs.length).Reads
          (content pairs) s'
        ∧ r.Fills allowed s s' (places pairs))
      ∨ ¬ ((places pairs).Nodup ∧ ∀ place ∈ places pairs, r.filled s place = false)
        ∧ ∀ more rest, fold (readPair (levels + 1) r.names (r.field (levels + 1))) s
          (pairs.length + more) (content pairs ++ rest) = none := by
  induction pairs generalizing s with
  | nil => exact .inl ⟨s, .pure s, .nil⟩
  | cons p pairs ih =>
    have hp := h p List.mem_cons_self
    rw [places_cons, content_cons, List.length_cons]
    -- The first pair is read unless its field was, and the others then meet its field in the state.
    by_cases hfree : ∀ place ∈ p.1, r.filled s place = false
    · obtain ⟨s₁, hfirst, hfills⟩ := reads_pair hp hfree
      rcases ih (fun q hq => h q (List.mem_cons_of_mem p hq)) s₁ with
        ⟨s', hreads, hfills'⟩ | ⟨hclash, hnone⟩
      · exact .inl ⟨s', .fold_cons hfirst hreads, hfills.append hfills'⟩
      · refine .inr ⟨?_, fun more rest => ?_⟩
        · rintro ⟨hnodup, hall⟩
          obtain ⟨-, hnodup', hapart⟩ := List.nodup_append.1 hnodup
          refine hclash ⟨hnodup', fun place hplace => ?_⟩
          have hlt := lt_length_of_mem_places
            (fun q hq => h q (List.mem_cons_of_mem p hq)) hplace
          have hnew : place ∉ p.1.toList := fun hmem => hapart place hmem place hplace rfl
          rw [hfills.free hlt hnew]
          exact hall place (List.mem_append_right _ hplace)
        · rw [Nat.add_right_comm, List.append_assoc, hfirst.fold_succ]
          exact hnone more rest
    · obtain ⟨place, bs⟩ := p
      cases hp with
      | @known place key value hkey hvalue =>
        have hfilled : r.filled s place = true := by
          simpa only [Option.mem_def, Option.some.injEq, forall_eq', Bool.not_eq_false] using hfree
        refine .inr ⟨?_, fun more rest => ?_⟩
        · rintro ⟨-, hall⟩
          have hempty := hall place List.mem_cons_self
          exact Bool.noConfusion (hfilled.symm.trans hempty)
        · rw [Nat.add_right_comm, List.append_assoc]
          show fold _ s (_ + 1) (key ++ value ++ (content pairs ++ rest)) = none
          rw [List.append_assoc]
          simp only [fold, refuses_key hkey hfilled]
      | unknown hkey hvalue =>
        exact absurd (fun place hplace => (Option.not_mem_none place hplace).elim) hfree

/-- **A spelled structure is read** for the value whose fields are spelled: `r.read` gives
    `make a`. -/
theorem reads_structure {a : α} {bs : Bytes}
    (h : Structure r.names (r.spelled a) levels bs) : (r.read levels).Reads bs (r.make a) := by
  have hfinish : ∀ {s'}, r.finish s' = some (r.make a) →
      (Reader.ofOption (r.finish s')).Reads [] (r.make a) := fun h => h ▸ .pure _
  cases h with
  | @array levels front values hfront fields =>
    have hfields : List.Forall₂ (fun place bs => ∃ b, b = a ∧ r.spelled b levels place bs)
        (List.range r.names.length) values := fields.imp fun place bs h => ⟨a, rfl, h⟩
    obtain ⟨s', hreads, hfills⟩ := reads_fields (s := r.start) hfields (fun place hplace => by
      have hlt := List.mem_range.1 hplace
      exact ⟨hlt, r.filled_start place hlt⟩) List.nodup_range
    refine Reads.bind_nil ((Head.reads_spelled hfront).bind ?_)
      (hfinish (hfills.finish_eq fun place hplace => List.mem_range.2 hplace))
    simp only [if_pos]
    exact hreads
  | @map levels front pairs hfront each once =>
    have heach : ∀ p ∈ pairs, r.SpelledPair (· = a) levels p := fun p hp =>
      (each p hp).imp fun place bs hspelled => ⟨a, rfl, hspelled⟩
    have hplaces : ∀ place < r.names.length, place ∈ places pairs := fun place hplace =>
      once.mem_iff.2 (List.mem_range.2 hplace)
    -- The places are those of the fields in some order, so that no key comes twice.
    rcases reads_pairs heach r.start with ⟨s', hreads, hfills⟩ | ⟨hclash, -⟩
    · exact Reads.bind_nil ((Head.reads_spelled hfront).bind hreads)
        (hfinish (hfills.finish_eq hplaces))
    · refine absurd ⟨once.nodup_iff.2 List.nodup_range, fun place hplace => ?_⟩ hclash
      exact r.filled_start place (List.mem_range.1 (once.mem_iff.1 hplace))

/-- What fails behind the head of an `array` fails with it. -/
theorem read_array {front body : Bytes} (h : Head.Spelled front (.array r.names.length))
    (hbody : (List.range r.names.length).foldlM (r.field levels) r.start body = none) :
    r.read levels (front ++ body) = none := by
  show (((Head.read (front ++ body)).bind _).bind _) = none
  rw [Head.reads_spelled h]
  show ((if r.names.length = r.names.length then
    (List.range r.names.length).foldlM (r.field levels) r.start
    else Reader.fail) body).bind _ = none
  rw [if_pos rfl, hbody]
  rfl

/-- What fails behind the head of a `map` fails with it. -/
theorem read_map {count : Nat} {front body : Bytes} (h : Head.Spelled front (.map count))
    (hbody : (fold (readPair levels r.names (r.field levels)) r.start count body).bind
      (fun p => Reader.ofOption (r.finish p.1) p.2) = none) :
    r.read levels (front ++ body) = none := by
  show (((Head.read (front ++ body)).bind _).bind _) = none
  rw [Head.reads_spelled h]
  exact hbody

/-- Fields of any value: `spelled a` for some `a`. -/
def anyField (r : Record σ α β) (levels place : Nat) (bs : Bytes) : Prop :=
  ∃ a, r.spelled a levels place bs

/-- **A flawed structure is refused,** whatever follows the flaw, if flawed fields are: `r.read`
    gives `none`. -/
theorem refuses_flawed {flawed : Nat → Nat → Bytes → Prop} {bs : Bytes}
    (h : Flawed r.names r.anyField flawed levels bs)
    (hflawed : ∀ s place bs, flawed (levels - 1) place bs →
      ∀ rest, r.field levels s place (bs ++ rest) = none) (rest : Bytes) :
    r.read levels (bs ++ rest) = none := by
  have hpairs : ∀ {levels : Nat} {pairs : Pairs},
      (∀ p ∈ pairs, Pair r.names (r.anyField levels) levels p.1 p.2) →
      ∀ p ∈ pairs, r.SpelledPair (fun _ => True) levels p := fun each p hp =>
    (each p hp).imp fun place bs ⟨a, hspelled⟩ => ⟨a, trivial, hspelled⟩
  cases h with
  | @missing levels place front pairs hfront each is_field missed =>
    rw [List.append_assoc]
    refine read_map hfront ?_
    rcases reads_pairs (hpairs each) r.start with ⟨s', hreads, hfills⟩ | ⟨-, hnone⟩
    · -- No pair was of the missing field, so its place is still free at the end.
      have hfree := (hfills.free is_field missed).trans (r.filled_start place is_field)
      rw [hreads rest]
      simp only [Option.bind_some, r.finish_missing s' place is_field hfree]
      rfl
    · rw [← Nat.add_zero pairs.length, hnone 0 rest]
      rfl
  | @repeated levels count place front key pairs hfront more each again hkey =>
    obtain ⟨left, rfl⟩ := Nat.exists_eq_add_of_lt more
    rw [List.append_assoc, List.append_assoc]
    refine read_map hfront ?_
    rcases reads_pairs (hpairs each) r.start with ⟨s', hreads, hfills⟩ | ⟨-, hnone⟩
    · -- The second key of the field finds its place filled.
      have hfilled : r.filled s' place = true := by
        rw [hfills.filled_eq place hkey.lt_length, decide_eq_true again, Bool.or_true]
      rw [Nat.add_assoc, hreads.fold_add]
      simp only [fold, refuses_key hkey hfilled]
      rfl
    · rw [Nat.add_assoc, hnone]
      rfl
  | @inArray levels place front value values hfront is_field fields value_flawed =>
    rw [List.append_assoc, List.append_assoc]
    refine read_array hfront ?_
    have hfields : List.Forall₂ (fun place bs => ∃ a, True ∧ r.spelled a levels place bs)
        (List.range place) values :=
      fields.imp fun place bs ⟨a, hspelled⟩ => ⟨a, trivial, hspelled⟩
    -- The fields in front of the flaw are read, and then `hflawed` has it.
    obtain ⟨s', hreads, hfills⟩ := reads_fields hfields (s := r.start) (fun other hother => by
      have hlt := Nat.lt_trans (List.mem_range.1 hother) is_field
      exact ⟨hlt, r.filled_start other hlt⟩) List.nodup_range
    obtain ⟨left, hlength⟩ := Nat.exists_eq_add_of_lt is_field
    rw [hlength, Nat.add_assoc, List.range_add, List.range_succ_eq_map, List.map_cons,
      List.foldlM_append]
    show ((List.range place).foldlM (r.field (levels + 1)) r.start
      (values.flatten ++ (value ++ rest))).bind _ = none
    rw [hreads]
    show ((r.field (levels + 1) s' place (value ++ rest)).bind _) = none
    rw [hflawed s' place value value_flawed rest]
    rfl
  | @inMap levels count place front key value pairs hfront more each hkey value_flawed =>
    obtain ⟨left, rfl⟩ := Nat.exists_eq_add_of_lt more
    rw [List.append_assoc, List.append_assoc, List.append_assoc]
    refine read_map hfront ?_
    rcases reads_pairs (hpairs each) r.start with ⟨s', hreads, hfills⟩ | ⟨-, hnone⟩
    · have hnone : readPair (levels + 1) r.names (r.field (levels + 1)) s' (key ++ (value ++ rest))
          = none := by
        -- Either the field was there before, and its key is refused, or its value is flawed.
        cases hfilled : r.filled s' place with
        | true => exact refuses_key hkey hfilled _ _
        | false =>
          show (readKey r.names (key ++ (value ++ rest))).bind _ = none
          rw [reads_keySpelled r.distinct hkey]
          exact hflawed s' place value value_flawed rest
      rw [Nat.add_assoc, hreads.fold_add]
      simp only [fold, hnone]
      rfl
    · rw [Nat.add_assoc, hnone]
      rfl

end Record

end MutationSet

end BatchJournal
