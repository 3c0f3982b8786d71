import BatchJournal.Batch.Id

namespace BatchJournal

/-!
# Hexadecimal text is read back

* `Hex.toBytes?_ofBytes` — the digits of bytes spell these bytes.
* `BatchId.ofText?_text` — the hyphenated text of an id spells this id.
-/

namespace Hex

/-- A digit has the value `n` that it was made of. -/
theorem value?_digit : ∀ n < 16, value? (digit n) = some n := by decide

/-- The two digits of a byte: those of `n / 16` and `n % 16`. -/
theorem digits_two (n : Nat) : digits 2 n = [digit (n / 16 % 16), digit (n % 16)] := rfl

/-- The four digits of a unit, from `n / 16 ^ 3` down to `n % 16`. -/
theorem digits_four (n : Nat) : digits 4 n
    = [digit (n / 16 / 16 / 16 % 16), digit (n / 16 / 16 % 16), digit (n / 16 % 16),
      digit (n % 16)] := rfl

/-- **The digits of bytes spell these bytes:** `toBytes?` undoes `ofBytes`. -/
theorem toBytes?_ofBytes (bs : Bytes) : toBytes? (ofBytes bs) = some bs := by
  induction bs with
  | nil => rfl
  | cons b bs ih =>
    have hhigh := value?_digit (b.toNat / 16 % 16) (Nat.mod_lt _ (by decide))
    have hlow := value?_digit (b.toNat % 16) (Nat.mod_lt _ (by decide))
    have hb : UInt8.ofNat (16 * (b.toNat / 16 % 16) + b.toNat % 16) = b := by
      have hlt := b.toNat_lt
      rw [show 16 * (b.toNat / 16 % 16) + b.toNat % 16 = b.toNat by omega, UInt8.ofNat_toNat]
    show toBytes? (digits 2 b.toNat ++ ofBytes bs) = some (b :: bs)
    rw [digits_two, List.cons_append, List.cons_append, List.nil_append, toBytes?, hhigh, hlow, ih]
    show some (UInt8.ofNat (16 * (b.toNat / 16 % 16) + b.toNat % 16) :: bs) = _
    rw [hb]

theorem length_ofBytes (bs : Bytes) : (ofBytes bs).length = 2 * bs.length := by
  induction bs with
  | nil => rfl
  | cons b bs ih =>
    show (digits 2 b.toNat ++ ofBytes bs).length = _
    rw [List.length_append, ih, digits_two, List.length_cons]
    simp only [List.length_cons, List.length_nil]
    omega

end Hex

namespace BatchId

/-- Groups of `8`, `4`, `4` and `4` digits and a last one, with hyphens between them, are read as
    the digits of all groups. -/
theorem ofHyphenated?_groups {g₁ g₂ g₃ g₄ g₅ : List Char} (h₁ : g₁.length = 8)
    (h₂ : g₂.length = 4) (h₃ : g₃.length = 4) (h₄ : g₄.length = 4) :
    ofHyphenated? (g₁ ++ '-' :: (g₂ ++ '-' :: (g₃ ++ '-' :: (g₄ ++ '-' :: g₅))))
      = ofDigits? (g₁ ++ g₂ ++ g₃ ++ g₄ ++ g₅) := by
  generalize hcs : g₁ ++ '-' :: (g₂ ++ '-' :: (g₃ ++ '-' :: (g₄ ++ '-' :: g₅))) = cs
  -- What the text is from each of the places on where a group or a hyphen begins.
  have hdrop : ∀ n front back, front ++ back = cs → front.length = n → cs.drop n = back :=
    fun n front back hfront hlength => hfront ▸ List.drop_left' hlength
  have hdrop₈ := hdrop 8 g₁ ('-' :: (g₂ ++ '-' :: (g₃ ++ '-' :: (g₄ ++ '-' :: g₅)))) hcs h₁
  have hdrop₉ := hdrop 9 (g₁ ++ ['-']) (g₂ ++ '-' :: (g₃ ++ '-' :: (g₄ ++ '-' :: g₅)))
    (by simpa using hcs) (by simp [h₁])
  have hdrop₁₃ := hdrop 13 (g₁ ++ '-' :: g₂) ('-' :: (g₃ ++ '-' :: (g₄ ++ '-' :: g₅)))
    (by simpa using hcs) (by simp [h₁, h₂])
  have hdrop₁₄ := hdrop 14 (g₁ ++ '-' :: (g₂ ++ ['-'])) (g₃ ++ '-' :: (g₄ ++ '-' :: g₅))
    (by simpa using hcs) (by simp [h₁, h₂])
  have hdrop₁₈ := hdrop 18 (g₁ ++ '-' :: (g₂ ++ '-' :: g₃)) ('-' :: (g₄ ++ '-' :: g₅))
    (by simpa using hcs) (by simp [h₁, h₂, h₃])
  have hdrop₁₉ := hdrop 19 (g₁ ++ '-' :: (g₂ ++ '-' :: (g₃ ++ ['-']))) (g₄ ++ '-' :: g₅)
    (by simpa using hcs) (by simp [h₁, h₂, h₃])
  have hdrop₂₃ := hdrop 23 (g₁ ++ '-' :: (g₂ ++ '-' :: (g₃ ++ '-' :: g₄))) ('-' :: g₅)
    (by simpa using hcs) (by simp [h₁, h₂, h₃, h₄])
  have hdrop₂₄ := hdrop 24 (g₁ ++ '-' :: (g₂ ++ '-' :: (g₃ ++ '-' :: (g₄ ++ ['-'])))) g₅
    (by simpa using hcs) (by simp [h₁, h₂, h₃, h₄])
  have hhyphens : ([8, 13, 18, 23].all fun i => decide (cs[i]? = some '-')) = true := by
    simp only [← List.head?_drop, List.all_cons, hdrop₈, hdrop₁₃, hdrop₁₈, hdrop₂₃, List.head?_cons]
    rfl
  have htake : cs.take 8 = g₁ := hcs ▸ List.take_left' h₁
  rw [ofHyphenated?, if_pos hhyphens, htake, hdrop₉, hdrop₁₄, hdrop₁₉, hdrop₂₄,
    List.take_left' h₂, List.take_left' h₃, List.take_left' h₄]

/-- **The text of an id spells this id:** `ofText?` undoes `text`. -/
theorem ofText?_text (id : BatchId) : ofText? id.text = some id := by
  have hlength : (Hex.ofBytes id.bytes).length = 32 := by rw [Hex.length_ofBytes, id.length_eq]
  generalize hcs : Hex.ofBytes id.bytes = cs at hlength
  have hdigits : ofDigits? cs = some id := by
    rw [ofDigits?, ← hcs, Hex.toBytes?_ofBytes]
    exact ofBytes?_bytes id
  have hgroup : ∀ start count, start + count ≤ 32 →
      ((cs.drop start).take count).length = count := by
    intro start count hle
    simp only [List.length_take, List.length_drop]
    omega
  -- The groups are the digits of the bytes, cut at 8, 12, 16 and 20.
  have hjoin : (cs.drop 0).take 8 ++ (cs.drop 8).take 4 ++ (cs.drop 12).take 4
      ++ (cs.drop 16).take 4 ++ (cs.drop 20).take 12 = cs := by
    rw [List.drop_zero, ← List.take_add, ← List.take_add, ← List.take_add, ← List.take_add,
      List.take_of_length_le (Nat.le_of_eq hlength)]
  have htext : id.text.toList = (cs.drop 0).take 8 ++ '-' :: ((cs.drop 8).take 4
      ++ '-' :: ((cs.drop 12).take 4 ++ '-' :: ((cs.drop 16).take 4
      ++ '-' :: (cs.drop 20).take 12))) := by
    simp [text, hcs]
  -- With its hyphens the text is longer than 32, and so read by groups.
  have hlength' : id.text.toList.length = 36 := by
    rw [htext]
    simp only [List.length_append, List.length_cons, hgroup 0 8 (by decide), hgroup 8 4 (by decide),
      hgroup 12 4 (by decide), hgroup 16 4 (by decide), hgroup 20 12 (by decide)]
  rw [ofText?, if_neg (by omega), if_pos hlength', htext,
    ofHyphenated?_groups (hgroup 0 8 (by decide)) (hgroup 8 4 (by decide)) (hgroup 12 4 (by decide))
      (hgroup 16 4 (by decide)), hjoin, hdigits]

end BatchId

end BatchJournal
