import BatchJournal.Json.Forms
import BatchJournal.Proofs.Json.Grammar
import BatchJournal.Proofs.Text.Digits
import BatchJournal.Proofs.Text.Hex

namespace BatchJournal

/-!
# What is written is a text of its value

* `Json.quoted_quote` — a written text spells the text.
* `Json.spelled_toString` — a written number spells the number.
* `Json.spelled_writeList`, `Json.spelled_writeFields` — what is put together of texts is one.
-/

namespace Json

/-! ### Texts -/

/-- A character is written as a text of one piece: `escape c` spells one that `assemble` makes `c`
    of. -/
theorem pieceSpelled_escape (c : Char) :
    ∃ piece, PieceSpelled piece (escape c)
      ∧ ∀ pieces, assemble (piece :: pieces) = (assemble pieces).map (c :: ·) := by
  have hshort : ∀ letter, (letter, c) ∈ shortEscapes →
      ∃ piece, PieceSpelled piece ['\\', letter]
        ∧ ∀ pieces, assemble (piece :: pieces) = (assemble pieces).map (c :: ·) :=
    fun letter h => ⟨.char c, .short h, fun _ => rfl⟩
  unfold escape
  split
  -- Control characters are written as a unit; the other ones stand for themselves.
  case h_8 =>
    rename_i hquote hbackslash _ _ _ _ _
    split
    · rename_i hcontrol
      have hvalue : ∀ n, Hex.value? (Hex.digit (n % 16)) = some (n % 16) := fun n =>
        Hex.value?_digit (n % 16) (Nat.mod_lt n (by decide))
      have hunit := PieceSpelled.unit (hvalue (c.toNat / 16 / 16 / 16)) (hvalue (c.toNat / 16 / 16))
        (hvalue (c.toNat / 16)) (hvalue c.toNat)
      have hnumber : 16 * (16 * (16 * (c.toNat / 16 / 16 / 16 % 16) + c.toNat / 16 / 16 % 16)
          + c.toNat / 16 % 16) + c.toNat % 16 = c.toNat := by omega
      rw [hnumber] at hunit
      refine ⟨.unit c.toNat, Hex.digits_four c.toNat ▸ hunit, fun pieces => ?_⟩
      rw [assemble.eq_def]
      simp only
      rw [if_neg (by omega), if_neg (by omega), Char.ofNat_toNat]
    · exact ⟨.char c, .plain hquote hbackslash (by omega), fun _ => rfl⟩
  all_goals exact hshort _ (by simp [shortEscapes])

/-- **A written text spells the text:** `quote s` is one of `some s`. -/
theorem quoted_quote (s : String) : Quoted (some s) (quote s).toList := by
  have hpieces : ∀ cs : List Char, ∃ pieces parts, List.Forall₂ PieceSpelled pieces parts
      ∧ parts.flatten = cs.flatMap escape ∧ assemble pieces = some cs := by
    intro cs
    induction cs with
    | nil => exact ⟨[], [], .nil, rfl, rfl⟩
    | cons c cs ih =>
      obtain ⟨pieces, parts, hspelled, hparts, hassemble⟩ := ih
      obtain ⟨piece, hpiece, hmore⟩ := pieceSpelled_escape c
      refine ⟨piece :: pieces, escape c :: parts, .cons hpiece hspelled, ?_, ?_⟩
      · rw [List.flatten_cons, List.flatMap_cons, hparts]
      · rw [hmore, hassemble, Option.map_some]
  obtain ⟨pieces, parts, hspelled, hparts, hassemble⟩ := hpieces s.toList
  have hquoted := Quoted.mk hspelled
  rw [hassemble, hparts, Option.map_some, String.ofList_toList] at hquoted
  rw [quote, String.toList_ofList]
  exact hquoted

/-! ### Numbers -/

/-- **A written number spells the number:** `toString n` is one of `natural n`. -/
theorem spelled_toString (n : Nat) : Spelled (.natural n) (toString n).toList := by
  have hdigits : (toString n).toList = Nat.toDigits 10 n := Nat.toList_repr
  have hvalue : ofDigits (Nat.toDigits 10 n) = n :=
    Nat.ofDigitChars_toDigits (by decide) (by decide)
  have htext := wholeDigits_toDigits n
  have hwhole : Whole (Nat.toDigits 10 n) :=
    ⟨⟨htext.ne_nil, htext.digits⟩, fun hhead => by rw [htext.first hhead]; rfl⟩
  have hnumeral := Numeral.natural hwhole
  rw [hvalue] at hnumeral
  rw [hdigits]
  exact .numeral hnumeral

/-! ### Sequences -/

/-- Texts with `,` between them, and no blanks around them, are `List.intercalate`. -/
theorem commas_eq {α : Type} (text : α → List Char) (as : List α) :
    commas text (as.map fun a => ⟨[], a, []⟩) = List.intercalate [','] (as.map text) := by
  rw [commas, List.map_map]
  congr 1
  refine List.map_congr_left fun a _ => ?_
  simp [Padded.chars]

/-- Without blanks there are but blanks: `Padded.Blank`. -/
theorem blank_bare {α : Type} {as : List α} : ∀ i ∈ as.map fun a => Padded.mk [] a [], i.Blank := by
  intro i hi
  obtain ⟨a, -, rfl⟩ := List.mem_map.1 hi
  exact ⟨nofun, nofun⟩

/-- A sequence that is written without blanks spells `array`. -/
theorem spelled_elements {es : List Element} (h : ∀ e ∈ es, Spelled e.value e.text) :
    Spelled (.array (es.map (·.value)))
      ('[' :: (List.intercalate [','] (es.map Element.text) ++ [']'])) := by
  cases hes : es with
  | nil => exact .noElements nofun
  | cons e more =>
    rw [← hes]
    have hne : (es.map fun e => Padded.mk [] e []) ≠ [] := by simp [hes]
    have helements := Spelled.elements hne blank_bare (by simpa using h)
    rw [commas_eq, List.map_map] at helements
    exact helements

/-- An object that is written without blanks spells `object`. -/
theorem spelled_members {ms : List Member} (names : ∀ m ∈ ms, Quoted m.name m.key)
    (colon : ∀ m ∈ ms, Blanks m.before ∧ Blanks m.after)
    (h : ∀ m ∈ ms, Spelled m.value m.text) :
    Spelled (.object (ms.map fun m => (m.name, m.value)))
      ('\x7b' :: (List.intercalate [','] (ms.map Member.chars) ++ ['\x7d'])) := by
  cases hms : ms with
  | nil => exact .noMembers nofun
  | cons m more =>
    rw [← hms]
    have hne : (ms.map fun m => Padded.mk [] m []) ≠ [] := by simp [hms]
    have hmembers := Spelled.members hne blank_bare (by simpa using names) (by simpa using colon)
      (by simpa using h)
    rw [commas_eq, List.map_map] at hmembers
    exact hmembers

/-- **A sequence of texts** of some values is a text of their `array`: what `writeList` writes. -/
theorem spelled_writeList {α : Type} {write : α → String} {as : List α} {js : List Json}
    (h : List.Forall₂ (fun a j => Spelled j (write a).toList) as js) :
    Spelled (.array js) (JsonForm.writeList write as).toList := by
  -- The texts come with the values that they spell, as elements.
  obtain ⟨es, hvalues, htexts, hspelled⟩ : ∃ es : List Element, es.map (·.value) = js
      ∧ es.map Element.text = as.map (fun a => (write a).toList)
      ∧ ∀ e ∈ es, Spelled e.value e.text := by
    induction h with
    | nil => exact ⟨[], rfl, rfl, nofun⟩
    | @cons a j as js hj _ ih =>
      obtain ⟨es, hvalues, htexts, hspelled⟩ := ih
      refine ⟨⟨j, (write a).toList⟩ :: es, ?_, ?_, List.forall_mem_cons.2 ⟨hj, hspelled⟩⟩
      · rw [List.map_cons, hvalues]
      · rw [List.map_cons, List.map_cons, htexts]
  have helements := spelled_elements hspelled
  rw [hvalues, htexts] at helements
  have htext : (JsonForm.writeList write as).toList
      = '[' :: (List.intercalate [','] (as.map fun a => (write a).toList) ++ [']']) := by
    simp [JsonForm.writeList, String.toList_intercalate, Function.comp_def]
  rw [htext]
  exact helements

/-- **Fields under names** are a text of their `object`: what `writeFields` writes. -/
theorem spelled_writeFields {fields : List (String × String × Json)}
    (h : ∀ f ∈ fields, Spelled f.2.2 f.2.1.toList) :
    Spelled (.object (fields.map fun f => (some f.1, f.2.2)))
      (JsonForm.writeFields (fields.map fun f => (f.1, f.2.1))).toList := by
  have hmembers := @spelled_members
    (fields.map fun f => ⟨some f.1, (quote f.1).toList, [], [], f.2.2, f.2.1.toList⟩)
    (List.forall_mem_map.2 fun f _ => quoted_quote f.1)
    (List.forall_mem_map.2 fun f _ => ⟨nofun, nofun⟩) (List.forall_mem_map.2 h)
  rw [List.map_map, List.map_map] at hmembers
  have htext : (JsonForm.writeFields (fields.map fun f => (f.1, f.2.1))).toList
      = '\x7b' :: (List.intercalate [','] (fields.map fun f =>
        (quote f.1).toList ++ ':' :: f.2.1.toList) ++ ['\x7d']) := by
    simp [JsonForm.writeFields, String.toList_intercalate, Function.comp_def]
  rw [htext]
  simpa [Function.comp_def, Member.chars] using hmembers

end Json

end BatchJournal
