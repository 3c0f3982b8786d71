import Mathlib.Data.List.TakeWhile
import BatchJournal.Text.Parser

namespace BatchJournal

/-!
# What parsers take off the front

The parsers are put together from a few others, and so is what they make of the front of a text.
Each of these is a rule for one step: a parser takes so much, and goes on with the rest, or fails.
A parser that takes as many characters as it can is told where it stops by the first character of
the rest.

* `Parser.bind_some`, `Parser.bind_none` — one parser after another.
* `Parser.takeWhile_append` — characters up to one that is none of them.
* `Parser.Rounds`, `Parser.many_eq` — as many rounds as succeed.
-/

namespace Parser

variable {α β : Type} {p q : Parser α} {s s' rest : List Char} {a : α}

/-! ### One after another -/

/-- A parser that takes something goes on with the rest: `p >>= f` is `f a` on `s'`. -/
theorem bind_some (h : p s = some (a, s')) (f : α → Parser β) : (p >>= f) s = f a s' := by
  show (p s).bind _ = _
  rw [h]
  rfl

/-- A parser that fails does not go on: `p >>= f` is `none`. -/
theorem bind_none (h : p s = none) (f : α → Parser β) : (p >>= f) s = none := by
  show (p s).bind _ = _
  rw [h]
  rfl

/-- What comes of `p >>= f` comes of both, one after another. -/
theorem of_bind_some {f : α → Parser β} {r : β × List Char} (h : (p >>= f) s = some r) :
    ∃ a s', p s = some (a, s') ∧ f a s' = some r := by
  cases hp : p s with
  | none => exact nomatch (bind_none hp f).symm.trans h
  | some taken => exact ⟨taken.1, taken.2, rfl, (bind_some hp f).symm.trans h⟩

theorem map_some (h : p s = some (a, s')) (f : α → β) : (f <$> p) s = some (f a, s') := by
  rw [map_eq_pure_bind, bind_some h]
  rfl

/-! ### Characters -/

/-- No character that satisfies `test` comes first. -/
def Stops (test : Char → Bool) (s : List Char) : Prop := ∀ c ∈ s.head?, test c = false

theorem Stops.nil (test : Char → Bool) : Stops test [] := nofun

theorem Stops.cons {test : Char → Bool} {c : Char} (h : test c = false) (s : List Char) :
    Stops test (c :: s) := by
  rintro d hd
  obtain rfl := Option.some.inj hd
  exact h

/-- What stops a weaker test `test` stops a stronger one, `test'`. -/
theorem Stops.imp {test test' : Char → Bool} (h : Stops test s)
    (h' : ∀ c, test' c = true → test c = true) : Stops test' s := by
  intro c hc
  have hfalse := h c hc
  cases htest : test' c with
  | false => rfl
  | true => exact nomatch hfalse.symm.trans (h' c htest)

theorem satisfy_cons {test : Char → Bool} {c : Char} (h : test c = true) (s : List Char) :
    satisfy test (c :: s) = some (c, s) := if_pos h

theorem satisfy_none {test : Char → Bool} (h : Stops test s) : satisfy test s = none := by
  cases s with
  | nil => rfl
  | cons c s => exact if_neg (Bool.eq_false_iff.1 (h c rfl))

theorem char_cons (c : Char) (s : List Char) : char c (c :: s) = some ((), s) :=
  bind_some (satisfy_cons (decide_eq_true rfl) s) _

theorem char_none {c : Char} (h : Stops (· = c) s) : char c s = none :=
  bind_none (satisfy_none h) _

/-- Where another character comes first, `char c` fails. -/
theorem char_ne {c d : Char} (h : d ≠ c) (s : List Char) : char c (d :: s) = none :=
  char_none (.cons (decide_eq_false h) s)

theorem literal_append (t : String) (s : List Char) :
    literal t (t.toList ++ s) = some ((), s) := by
  have hprefix : t.toList.isPrefixOf (t.toList ++ s) = true :=
    List.isPrefixOf_iff_prefix.2 (List.prefix_append _ _)
  simp only [literal, hprefix, if_true, List.drop_left]

theorem literal_none {t : String} (h : t.toList.isPrefixOf s = false) : literal t s = none := by
  rw [literal, h]
  rfl

/-- What begins with `c` is no prefix of what does not. -/
theorem isPrefixOf_stops {c : Char} (h : Stops (· = c) s) (cs : List Char) :
    (c :: cs).isPrefixOf s = false := by
  cases s with
  | nil => rfl
  | cons d s =>
    have hne : c ≠ d := Ne.symm (of_decide_eq_false (h d rfl))
    rw [List.isPrefixOf, beq_false_of_ne hne, Bool.false_and]

/-- A `literal` fails on a text that begins with another character. -/
theorem literal_ne {t : String} {c d : Char} {cs : List Char} (ht : t.toList = c :: cs) (h : c ≠ d)
    (s : List Char) : literal t (d :: s) = none :=
  literal_none (ht ▸ isPrefixOf_stops (.cons (decide_eq_false h.symm) s) cs)

/-- **Characters up to one that is none of them:** `takeWhile` takes `cs` and leaves `rest`. -/
theorem takeWhile_append {test : Char → Bool} {cs : List Char} (h : ∀ c ∈ cs, test c = true)
    (hrest : Stops test rest) : takeWhile test (cs ++ rest) = some (cs, rest) := by
  have htake : rest.takeWhile test = [] ∧ rest.dropWhile test = rest := by
    cases rest with
    | nil => exact ⟨rfl, rfl⟩
    | cons c rest =>
      have hc : ¬ test c = true := Bool.eq_false_iff.1 (hrest c rfl)
      exact ⟨List.takeWhile_cons_of_neg hc, List.dropWhile_cons_of_neg hc⟩
  show some ((cs ++ rest).takeWhile test, (cs ++ rest).dropWhile test) = _
  rw [List.takeWhile_append_of_pos h, List.dropWhile_append_of_pos h, htake.1, htake.2,
    List.append_nil]

theorem takeWhile1_append {test : Char → Bool} {cs : List Char} (hne : cs ≠ [])
    (h : ∀ c ∈ cs, test c = true) (hrest : Stops test rest) :
    takeWhile1 test (cs ++ rest) = some (cs, rest) := by
  refine (bind_some (takeWhile_append h hrest) _).trans ?_
  rw [if_neg (by simpa using hne)]
  rfl

/-! ### Alternatives -/

theorem either_left {r : α × List Char} (h : p s = some r) (q : Parser α) :
    either p q s = some r := by
  simp only [either, h]

theorem either_right (h : p s = none) (q : Parser α) : either p q s = q s := by
  simp only [either, h]

theorem optional_some (h : p s = some (a, s')) : optional p s = some (some a, s') :=
  either_left (map_some h some) _

theorem optional_none (h : p s = none) : optional p s = some (none, s) := by
  refine (either_right ?_ _).trans rfl
  rw [map_eq_pure_bind]
  exact bind_none h _

/-! ### Repetition -/

/-- **The rounds of a parser:** each takes something, and where they stop `p` fails. -/
inductive Rounds (p : Parser α) : List α → List Char → List Char → Prop
  /-- No round succeeds. -/
  | stop {s : List Char} (fails : p s = none) : Rounds p [] s s
  /-- One more round. -/
  | round {a : α} {as : List α} {s s' rest : List Char} (takes : p s = some (a, s'))
      (shorter : s'.length < s.length) (more : Rounds p as s' rest) : Rounds p (a :: as) s rest

/-- There are not more rounds than characters in `s`. -/
theorem Rounds.length_le {as : List α} (h : Rounds p as s rest) : as.length ≤ s.length := by
  induction h with
  | stop fails => exact Nat.zero_le _
  | round takes shorter more ih =>
    rw [List.length_cons]
    omega

/-- Rounds leave no more than there was: `rest` is not longer than `s`. -/
theorem Rounds.rest_length_le {as : List α} (h : Rounds p as s rest) : rest.length ≤ s.length := by
  induction h with
  | stop fails => exact Nat.le_refl _
  | round takes shorter more ih => omega

/-- **Repetition** gives the values of its rounds: `many p` takes `as`. -/
theorem many_eq {as : List α} (h : Rounds p as s rest) : many p s = some (as, rest) := by
  have honto : ∀ bound read, as.length ≤ bound.length →
      manyOnto p read bound s = some (read.reverse ++ as, rest) := by
    induction h with
    | stop fails =>
      intro bound read _
      rw [List.append_nil]
      cases bound with
      | nil => rfl
      | cons c bound => simp only [manyOnto, fails]
    | @round a as s s' rest takes shorter more ih =>
      intro bound read hbound
      cases bound with
      | nil => exact absurd hbound (Nat.not_succ_le_zero _)
      | cons c bound =>
        have hle := Nat.le_of_succ_le_succ hbound
        simp only [manyOnto, takes, ih bound (a :: read) hle, List.reverse_cons, List.append_assoc,
          List.singleton_append]
  exact honto s [] h.length_le

/-- One round, and more behind separators: `sepBy1` takes `a :: as`. -/
theorem sepBy1_eq {as : List α} {separator : Parser Unit} (h : p s = some (a, s'))
    (more : Rounds (do separator; p) as s' rest) :
    sepBy1 p separator s = some (a :: as, rest) := by
  refine (bind_some h _).trans ?_
  exact (bind_some (many_eq more) _).trans rfl

end Parser

end BatchJournal
