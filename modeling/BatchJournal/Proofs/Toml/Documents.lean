import BatchJournal.Proofs.Toml.Numbers
import BatchJournal.Proofs.Toml.Strings

namespace BatchJournal

/-!
# Documents of plain lines are read back

A document that has one line for each key, each of them a bare key with a value, is the table of
these keys.

* `Toml.Row` — a key with the text of its value, and what the text is read as.
* `Toml.line_row` — one line.
* `Toml.parse_rows` — **the document of some rows is their table.**
-/

namespace Toml

open BatchJournal.Parser

/-! ### Keys -/

/-- A character of a bare key. -/
def bare (c : Char) : Bool :=
  ('a' ≤ c && c ≤ 'z') || ('A' ≤ c && c ≤ 'Z') || decimalDigit c || c = '_' || c = '-'

theorem blanks_eq {cs s : List Char} (hcs : ∀ c ∈ cs, blank c = true) (hs : Stops blank s) :
    blanks (cs ++ s) = some ((), s) :=
  (bind_some (takeWhile_append hcs hs) _).trans rfl

/-- No blank stands here: `blanks` takes nothing. -/
theorem blanks_none {s : List Char} (hs : Stops blank s) : blanks s = some ((), s) :=
  @blanks_eq [] s (List.forall_mem_nil _) hs

/-- No character of a bare key is one for which `bare` fails. -/
theorem ne_of_bare {c d : Char} (hc : bare c = true) (hd : bare d = false) : c ≠ d := by
  rintro rfl
  exact absurd hc (Bool.eq_false_iff.1 hd)

theorem blank_bare {c : Char} (h : bare c = true) : blank c = false := by
  rw [blank, decide_eq_false (@ne_of_bare c ' ' h rfl), decide_eq_false (@ne_of_bare c '\t' h rfl)]
  rfl

/-- **A bare key** with a blank behind it: `key` takes the name and leaves the `=`. -/
theorem key_bare {name s : List Char} (hne : name ≠ []) (hbare : ∀ c ∈ name, bare c = true) :
    key (name ++ ' ' :: '=' :: s) = some ([String.ofList name], '=' :: s) := by
  obtain ⟨c, cs, rfl⟩ := List.exists_cons_of_ne_nil hne
  have hc := hbare c List.mem_cons_self
  -- A bare key is no string in quotes, so `keyPart` takes the characters as they are.
  have hquoted : lineString (c :: (cs ++ ' ' :: '=' :: s)) = none :=
    (either_right (bind_none (char_ne (ne_of_bare hc rfl) _) _) _).trans
      (bind_none (char_ne (ne_of_bare hc rfl) _) _)
  have hpart : keyPart (c :: (cs ++ ' ' :: '=' :: s))
      = some (String.ofList (c :: cs), ' ' :: '=' :: s) :=
    (either_right hquoted _).trans
      ((bind_some (takeWhile1_append hne hbare (.cons rfl _)) _).trans rfl)
  have hblank : Stops blank (c :: (cs ++ ' ' :: '=' :: s)) := .cons (blank_bare hc) _
  have hbehind : blanks (' ' :: '=' :: s) = some ((), '=' :: s) :=
    @blanks_eq [' '] ('=' :: s) (List.forall_mem_singleton.2 rfl) (.cons rfl s)
  have hfirst : (do blanks; let p ← keyPart; blanks; return p) (c :: (cs ++ ' ' :: '=' :: s))
      = some (String.ofList (c :: cs), '=' :: s) :=
    (bind_some (blanks_none hblank) _).trans ((bind_some hpart _).trans
      ((bind_some hbehind _).trans rfl))
  -- No point follows, so the key has one part.
  have hmore : char '.' ('=' :: s) = none := @char_ne '.' '=' (by decide) s
  exact (bind_some (sepBy1_eq hfirst (.stop (bind_none hmore _))) _).trans rfl

/-! ### Lines -/

/-- **A value begins with no blank:** `scalar` fails on one. -/
theorem stops_of_scalar {s rest : List Char} {v : Value} (h : scalar s = some (v, rest)) :
    Stops blank s := by
  cases s with
  | nil => exact .nil blank
  | cons c s =>
    refine .cons (Bool.eq_false_iff.2 fun hblank => ?_) s
    rw [blank, Bool.or_eq_true, decide_eq_true_iff, decide_eq_true_iff] at hblank
    have hnone : scalar (c :: s) = none := by
      rcases hblank with rfl | rfl <;> rfl
    exact Option.some_ne_none _ (h.symm.trans hnone)

/-- A key with the text of its value, and what the text is read as. -/
structure Row where
  /-- The key. -/
  name : String
  /-- The text of the value. -/
  text : String
  /-- The value. -/
  value : Value

/-- The key is a `bare` one, and `scalar` reads the text as the value where its line ends. -/
structure Row.Reads (r : Row) : Prop where
  /-- The key is not empty. -/
  name_ne : r.name.toList ≠ []
  /-- The key has letters, digits, underscores and hyphens. -/
  bare_name : ∀ c ∈ r.name.toList, bare c = true
  /-- The text of the value is read as the value. -/
  reads : ∀ s, scalar (r.text.toList ++ '\n' :: s) = some (r.value, '\n' :: s)

/-- The line of a row: `name = text`. -/
def Row.chars (r : Row) : List Char :=
  r.name.toList ++ ' ' :: '=' :: ' ' :: (r.text.toList ++ ['\n'])

/-- **The line of a row** is read as its key with its value, by `line`. -/
theorem line_row {r : Row} (h : r.Reads) (s : List Char) :
    line (r.chars ++ s) = some (some (.assign [r.name] r.value), s) := by
  have hreads := h.reads s
  have htext : r.chars ++ s
      = r.name.toList ++ ' ' :: '=' :: ' ' :: (r.text.toList ++ '\n' :: s) := by simp [Row.chars]
  have hkey := @key_bare _ (' ' :: (r.text.toList ++ '\n' :: s)) h.name_ne h.bare_name
  have hvalue : value depthLimit (r.text.toList ++ '\n' :: s) = some (r.value, '\n' :: s) :=
    either_left hreads _
  have hblanks : blanks (' ' :: (r.text.toList ++ '\n' :: s))
      = some ((), r.text.toList ++ '\n' :: s) :=
    @blanks_eq [' '] _ (List.forall_mem_singleton.2 rfl) (stops_of_scalar hreads)
  have hcomment : comment ('\n' :: s) = none := bind_none (@char_ne '#' '\n' (by decide) s) _
  have hend : lineEnd ('\n' :: s) = some ((), s) :=
    (bind_some (blanks_none (.cons rfl s)) _).trans ((bind_some (optional_none hcomment) _).trans
      (either_left (newline_eq s) _))
  obtain ⟨c, cs, hname⟩ := List.exists_cons_of_ne_nil h.name_ne
  have hc := h.bare_name c (hname ▸ List.mem_cons_self)
  rw [htext]
  have hfront : Stops blank
      (r.name.toList ++ ' ' :: '=' :: ' ' :: (r.text.toList ++ '\n' :: s)) := by
    rw [hname]
    exact .cons (blank_bare hc) _
  refine (bind_some (blanks_none hfront) _).trans ?_
  refine (@bind_some _ _ peek _ _ _ rfl _).trans ?_
  have hhead : (r.name.toList ++ ' ' :: '=' :: ' ' :: (r.text.toList ++ '\n' :: s)).head?
      = some c := by rw [hname]; rfl
  -- A letter begins neither a comment nor a header.
  generalize (r.name.toList ++ ' ' :: '=' :: ' ' :: (r.text.toList ++ '\n' :: s)).head? = first
    at hhead
  split
  · exact nomatch hhead
  · exact absurd (Option.some.inj hhead).symm (ne_of_bare hc rfl)
  · exact absurd (Option.some.inj hhead).symm (ne_of_bare hc rfl)
  · exact absurd (Option.some.inj hhead).symm (ne_of_bare hc rfl)
  · exact absurd (Option.some.inj hhead).symm (ne_of_bare hc rfl)
  · refine (bind_some hkey _).trans ?_
    refine (bind_some (char_cons '=' _) _).trans ?_
    refine (bind_some hblanks _).trans ?_
    refine (bind_some hvalue _).trans ?_
    refine (bind_some hend _).trans ?_
    rw [String.ofList_toList]
    rfl

/-! ### Documents -/

/-- The lines of rows, one after the other, are `Rounds` of `line`. -/
theorem rounds_rows {rows : List Row} (h : ∀ r ∈ rows, r.Reads) :
    Rounds line (rows.map fun r => some (.assign [r.name] r.value)) (rows.flatMap Row.chars)
      [] := by
  induction rows with
  | nil => exact .stop rfl
  | cons r rows ih =>
    obtain ⟨hr, hrows⟩ := List.forall_mem_cons.1 h
    refine .round (line_row hr (rows.flatMap Row.chars)) ?_ (ih hrows)
    rw [List.flatMap_cons, List.length_append]
    simp [Row.chars]

/-- A key that a table has not got is put at its end by `assign`. -/
theorem assign_new {items : List (String × Item)} {name : String} (h : name ∉ items.map (·.1))
    (v : Value) : Table.assign (.mk true false items) [name] v
      = some (.mk true false (items ++ [(name, .value v)])) := by
  have hne : ∀ p ∈ items, p.1 ≠ name := fun p hp heq => h (heq ▸ List.mem_map_of_mem hp)
  have hfind : Table.find? (.mk true false items) name = none := by
    rw [Table.find?, Option.map_eq_none_iff, List.find?_eq_none]
    exact fun p hp => by simpa using hne p hp
  have hset : Table.set (.mk true false items) name (.value v)
      = .mk true false (items ++ [(name, .value v)]) := by
    have hany : ¬ items.any (·.1 = name) = true := by
      rw [List.any_eq_true]
      rintro ⟨p, hp, heq⟩
      exact hne p hp (of_decide_eq_true heq)
    exact if_neg hany
  show (if (false = true) ∨ (Table.find? (.mk true false items) name).isSome = true then none
    else some (Table.set (.mk true false items) name (.value v))) = _
  rw [hfind, hset]
  rfl

/-- **The table of rows** whose keys are distinct is what `ofLines` makes of their lines. -/
theorem ofLines_rows {rows : List Row} (h : (rows.map Row.name).Nodup) :
    Table.ofLines (rows.map fun r => .assign [r.name] r.value)
      = some (.mk true false (rows.map fun r => (r.name, .value r.value))) := by
  have hfold : ∀ (rows : List Row) (items : List (String × Item)),
      (items.map (·.1) ++ rows.map Row.name).Nodup →
      (rows.map fun r => Line.assign [r.name] r.value).foldlM Draft.add ⟨.mk true false items, []⟩
        = some ⟨.mk true false (items ++ rows.map fun r => (r.name, .value r.value)), []⟩ := by
    -- By induction on the rows that are left; those before them are in the table.
    intro rows
    induction rows with
    | nil =>
      intro items _
      simp only [List.map_nil, List.append_nil]
      rfl
    | cons r rows ih =>
      intro items hnodup
      have hnew : r.name ∉ items.map (·.1) := fun hmem =>
        (List.nodup_append.1 hnodup).2.2 _ hmem _ List.mem_cons_self rfl
      have hadd : Draft.add ⟨.mk true false items, []⟩ (.assign [r.name] r.value)
          = some ⟨.mk true false (items ++ [(r.name, .value r.value)]), []⟩ := by
        show (Table.assign (.mk true false items) [r.name] r.value).bind _ = _
        rw [assign_new hnew]
        rfl
      rw [List.map_cons, List.foldlM_cons, hadd]
      refine (ih _ ?_).trans ?_
      · simpa using hnodup
      · simp
  rw [Table.ofLines, Table.root, hfold rows [] (by simpa using h)]
  rfl

/-- **The document of some rows is their table:** `parse` gives them in order. -/
theorem parse_rows {rows : List Row} (h : ∀ r ∈ rows, r.Reads)
    (hnodup : (rows.map Row.name).Nodup) : parse (String.ofList (rows.flatMap Row.chars))
      = some (.mk true false (rows.map fun r => (r.name, .value r.value))) := by
  -- The first character is one of a key, hence no byte order mark to be skipped.
  have hmark : (String.ofList (rows.flatMap Row.chars)).toList.head? ≠ some '\uFEFF' := by
    rw [String.toList_ofList]
    cases rows with
    | nil => exact nofun
    | cons r rows =>
      obtain ⟨c, cs, hname⟩ := List.exists_cons_of_ne_nil (h r List.mem_cons_self).name_ne
      have hc := (h r List.mem_cons_self).bare_name c (hname ▸ List.mem_cons_self)
      rw [List.flatMap_cons, Row.chars, hname]
      exact fun hhead => ne_of_bare hc rfl (Option.some.inj hhead)
  have hlines : run lines (String.ofList (rows.flatMap Row.chars))
      = some (rows.map fun r => .assign [r.name] r.value) := by
    have hread : lines (rows.flatMap Row.chars)
        = some (rows.map fun r => .assign [r.name] r.value, []) := by
      refine (bind_some (many_eq (rounds_rows h)) _).trans ?_
      refine (bind_some (blanks_none (.nil blank)) _).trans ?_
      show some (List.filterMap id (rows.map fun r => some (Line.assign [r.name] r.value)), [])
        = some (rows.map fun r => Line.assign [r.name] r.value, ([] : List Char))
      rw [List.filterMap_map]
      exact congrArg (fun ls => some (ls, [])) (congrFun List.filterMap_eq_map' rows)
    rw [run, String.toList_ofList, hread]
  rw [parse, if_neg hmark]
  show (run lines _).bind _ = _
  rw [hlines]
  exact ofLines_rows hnodup

end Toml

end BatchJournal
