import BatchJournal.Proofs.Codec.Refusal

namespace BatchJournal

/-!
# Only whole payloads are read

Neither reader looks beyond what it takes: with more put behind the bytes that were given to it, it
reads the same value and leaves that too.  So a payload with bytes behind it is read as far as it
goes, and what is left is counted.  And a payload cut short cannot be read to its end, or the whole
payload would be read no further than to the cut.

* `Reader.FrontOnly` — a reader looks at the front only.
* `Head.frontOnly_skip`, `MutationSet.frontOnly_structure` — values of any nesting, fields in any
  order.
* `FixedWidth.frontOnly_mutations`, `MutationSet.frontOnly_read` — the readers of mutation sets.
* `Format.only_whole_payloads` — both formats read whole payloads only.
-/

/-! ### Readers that look at the front only -/

namespace Reader

variable {α β σ : Type} {r : Reader α}

/-- **A reader looks at the front only:** bytes put behind those that it was given are left behind
    those that it left. -/
def FrontOnly (r : Reader α) : Prop :=
  ∀ (bs : Bytes) (a : α) (rest more : Bytes), r bs = some (a, rest) →
    r (bs ++ more) = some (a, rest ++ more)

theorem FrontOnly.pure (a : α) : (pure a : Reader α).FrontOnly := by
  intro bs a' rest more h
  obtain ⟨rfl, rfl⟩ := Prod.mk.inj (Option.some.inj h)
  rfl

theorem FrontOnly.fail : (fail : Reader α).FrontOnly := fun _ _ _ _ h => nomatch h

/-- `>>=` keeps `FrontOnly`. -/
theorem FrontOnly.bind {f : α → Reader β} (h : r.FrontOnly) (h' : ∀ a, (f a).FrontOnly) :
    (r >>= f).FrontOnly := by
  intro bs b rest more hread
  obtain ⟨⟨a, middle⟩, hfirst, hsecond⟩ := Option.bind_eq_some_iff.1 hread
  show (r (bs ++ more)).bind (fun p => f p.1 p.2) = some (b, rest ++ more)
  rw [h _ _ _ more hfirst]
  exact h' a _ _ _ more hsecond

theorem FrontOnly.map (f : α → β) (h : r.FrontOnly) : (f <$> r).FrontOnly := by
  rw [map_eq_pure_bind]
  exact h.bind fun a => .pure (f a)

theorem frontOnly_take (n : Nat) : (take n).FrontOnly := by
  intro bs front rest more h
  obtain ⟨rfl, hlength⟩ := Bytes.split?_eq_some_iff.1 h
  exact Bytes.split?_eq_some_iff.2 ⟨List.append_assoc front rest more, hlength⟩

theorem frontOnly_byte : byte.FrontOnly := by
  intro bs b rest more h
  cases bs with
  | nil => exact nomatch h
  | cons b' bs =>
    obtain ⟨rfl, rfl⟩ := Prod.mk.inj (Option.some.inj h)
    rfl

theorem frontOnly_little (width : Nat) : (little width).FrontOnly :=
  (frontOnly_take width).bind fun _ => .pure _

theorem frontOnly_big (width : Nat) : (big width).FrontOnly :=
  (frontOnly_take width).bind fun _ => .pure _

theorem frontOnly_ofOption (a : Option α) : (ofOption a).FrontOnly := by
  cases a with
  | none => exact .fail
  | some a => exact .pure a

theorem frontOnly_text (n : Nat) : (text n).FrontOnly :=
  (frontOnly_take n).bind fun _ => frontOnly_ofOption _

/-- So does `times`, for it is one more value and then as many as before. -/
theorem FrontOnly.times (h : r.FrontOnly) (n : Nat) : (r.times n).FrontOnly := by
  induction n with
  | zero => exact .pure []
  | succ n ih =>
    intro bs as rest more hread
    rw [times_succ] at hread ⊢
    split at hread
    · exact nomatch hread
    · rename_i a middle hfirst
      obtain ⟨⟨as', rest'⟩, hmore, heq⟩ := Option.map_eq_some_iff.1 hread
      obtain ⟨rfl, rfl⟩ := Prod.mk.inj heq
      simp only [h _ _ _ more hfirst, ih _ _ _ more hmore, Option.map_some]

theorem FrontOnly.fold {step : σ → Reader σ} (h : ∀ s, (step s).FrontOnly) (n : Nat) (s : σ) :
    (fold step s n).FrontOnly := by
  induction n generalizing s with
  | zero => exact .pure s
  | succ n ih =>
    intro bs s' rest more hread
    simp only [Reader.fold] at hread ⊢
    split at hread
    · simp at hread
    · rename_i middle left hfirst
      simp only [h s _ _ _ more hfirst]
      exact ih middle _ _ _ more hread

/-- So does `foldlM`, if each step looks at the front only. -/
theorem FrontOnly.foldlM {step : σ → α → Reader σ} (h : ∀ s a, (step s a).FrontOnly) (as : List α)
    (s : σ) : (as.foldlM step s).FrontOnly := by
  induction as generalizing s with
  | nil => exact .pure s
  | cons a as ih =>
    rw [List.foldlM_cons]
    exact (h s a).bind fun s' => ih s'

/-- **What was cut off** is the reason that the front is not read to its end. -/
theorem FrontOnly.eq_nil_of_cut {front tail rest : Bytes} {a b : α} (h : r.FrontOnly)
    (hfront : r front = some (b, [])) (hwhole : r (front ++ tail) = some (a, rest)) :
    rest = tail := by
  rw [h _ _ _ tail hfront] at hwhole
  exact (Prod.mk.inj (Option.some.inj hwhole)).2.symm

end Reader

open Reader

/-! ### The fixed-width layout -/

namespace FixedWidth

theorem frontOnly_readText : readText.FrontOnly :=
  (frontOnly_little 8).bind fun n => frontOnly_text n

theorem frontOnly_readBlob : readBlob.FrontOnly :=
  (frontOnly_little 8).bind fun n => frontOnly_take n

theorem frontOnly_readEdit : readEdit.FrontOnly := by
  refine (frontOnly_little 4).bind fun kind => ?_
  split
  · exact frontOnly_readText.bind fun _ => frontOnly_readText.bind fun _ =>
      frontOnly_readBlob.bind fun _ => .pure _
  · exact frontOnly_readText.bind fun _ => frontOnly_readText.bind fun _ => .pure _
  · exact .pure _
  · exact .fail

theorem frontOnly_readMutation : readMutation.FrontOnly :=
  frontOnly_readText.bind fun _ => frontOnly_readText.bind fun _ => frontOnly_readBlob.bind fun _ =>
    (frontOnly_little 8).bind fun n => (frontOnly_readEdit.times n).bind fun _ => .pure _

/-- **A fixed-width mutation set** is read off the front. -/
theorem frontOnly_mutations : mutations.FrontOnly :=
  (frontOnly_little 8).bind fun n => frontOnly_readMutation.times n

end FixedWidth

/-! ### Values in MessagePack -/

namespace Head

/-- What a marker announces is there, or is a word behind the marker. -/
theorem frontOnly_afterMarker (marker : UInt8) : (afterMarker marker).FrontOnly := by
  have hsigned : ∀ {width : Nat} {head : Int → Head},
      (head <$> (do return (↑(← big width) : Int)) : Reader Head).FrontOnly :=
    fun {width} _ => .map _ ((frontOnly_big width).bind fun _ => .pure _)
  -- One case for each marker.
  simp only [afterMarker]
  generalize marker.toNat = m
  repeat' split
  all_goals first
    | exact .pure _
    | exact .map _ (frontOnly_big _)
    | exact .map _ (frontOnly_take _)
    | exact hsigned
    | exact .fail

theorem frontOnly_read : read.FrontOnly := frontOnly_byte.bind frontOnly_afterMarker

/-- **Any value is passed over** by `skip`, by induction on the levels that it may nest. -/
theorem frontOnly_skip (levels : Nat) : (skip levels).FrontOnly := by
  induction levels with
  | zero =>
    refine frontOnly_read.bind fun head => ?_
    cases head with
    | text n | binary n => exact (frontOnly_take n).bind fun _ => .pure ()
    | array | map | extension => exact .fail
    | nil | bool | float | unsigned | signed => exact .pure ()
  | succ levels ih =>
    refine frontOnly_read.bind fun head => ?_
    cases head with
    | text n | binary n => exact (frontOnly_take n).bind fun _ => .pure ()
    | array n => exact .fold (fun _ => ih) n ()
    | map n => exact .fold (fun _ => ih) (2 * n) ()
    | extension n => exact (frontOnly_take (n + 1)).bind fun _ => .pure ()
    | nil | bool | float | unsigned | signed => exact .pure ()

end Head

namespace MutationSet

/-! ### Scalars and sequences -/

theorem frontOnly_readText : readText.FrontOnly := by
  refine Head.frontOnly_read.bind fun head => ?_
  cases head with
  | text n | binary n => exact frontOnly_text n
  | _ => exact .fail

theorem frontOnly_readByte : readByte.FrontOnly := by
  refine Head.frontOnly_read.bind fun head => ?_
  cases head with
  | unsigned | signed =>
    dsimp only
    split
    · exact .pure _
    · exact .fail
  | _ => exact .fail

theorem frontOnly_readBlob : readBlob.FrontOnly := by
  refine Head.frontOnly_read.bind fun head => ?_
  cases head with
  | array n => exact frontOnly_readByte.times n
  | binary n => exact frontOnly_take n
  | _ => exact .fail

theorem frontOnly_sequence {α : Type} {element : Reader α} (h : element.FrontOnly) :
    (readSequence element).FrontOnly := by
  refine Head.frontOnly_read.bind fun head => ?_
  split
  · exact h.times _
  · exact .pure []
  · exact .fail

/-! ### Structures -/

theorem frontOnly_readKey (names : List String) : (readKey names).FrontOnly := by
  refine Head.frontOnly_read.bind fun head => ?_
  cases head with
  | text n | binary n => exact (frontOnly_take n).bind fun _ => .pure _
  | unsigned n => exact .pure _
  | _ => exact .fail

/-- **A structure is read off the front** if its fields are, be it an array or a map. -/
theorem frontOnly_structure {σ : Type} {levels : Nat} {names : List String} {start : σ}
    {field : σ → Nat → Reader σ} (h : ∀ s i, (field s i).FrontOnly) :
    (readStructure levels names start field).FrontOnly := by
  have hpair : ∀ s, (readPair levels names field s).FrontOnly := by
    refine fun s => (frontOnly_readKey names).bind fun place => ?_
    cases place with
    | none => exact (Head.frontOnly_skip (levels - 1)).bind fun _ => .pure s
    | some i => exact h s i
  refine Head.frontOnly_read.bind fun head => ?_
  cases head with
  | array n =>
    dsimp only
    split
    · exact .foldlM h _ start
    · exact .fail
  | map n => exact .fold hpair n start
  | _ => exact .fail

theorem frontOnly_once {α : Type} {value : Reader α} (former : Option α) (h : value.FrontOnly) :
    (once former value).FrontOnly := by
  cases former with
  | none => exact h.map some
  | some _ => exact .fail

/-- A structure of two texts: `field` puts each of them in its place. -/
theorem frontOnly_ofTexts {α : Type} {levels : Nat} {names : List String}
    {field : Option String × Option String → Nat → Reader (Option String × Option String)}
    {build : String → String → α}
    (hfirst : ∀ s, field s 0 = (do return (← once s.1 readText, s.2)))
    (hsecond : ∀ s i, field s (i + 1) = (do return (s.1, ← once s.2 readText))) :
    (do let s ← readStructure levels names (none, none) field
        return build (← Reader.ofOption s.1) (← Reader.ofOption s.2)).FrontOnly := by
  refine (frontOnly_structure fun s i => ?_).bind fun s =>
    (frontOnly_ofOption _).bind fun _ => (frontOnly_ofOption _).bind fun _ => .pure _
  cases i with
  | zero => exact hfirst s ▸ (frontOnly_once _ frontOnly_readText).bind fun _ => .pure _
  | succ i => exact hsecond s i ▸ (frontOnly_once _ frontOnly_readText).bind fun _ => .pure _

theorem frontOnly_readTable (levels : Nat) : (readTable levels).FrontOnly :=
  frontOnly_ofTexts (fun _ => rfl) fun _ _ => rfl

theorem frontOnly_readDeleteCell (levels : Nat) : (readDeleteCell levels).FrontOnly :=
  frontOnly_ofTexts (fun _ => rfl) fun _ _ => rfl

theorem frontOnly_readUpsert (levels : Nat) : (readUpsert levels).FrontOnly := by
  refine (frontOnly_structure fun s i => ?_).bind fun fields =>
    (frontOnly_ofOption _).bind fun _ => (frontOnly_ofOption _).bind fun _ =>
      (frontOnly_ofOption _).bind fun _ => .pure _
  dsimp only
  split
  · exact (frontOnly_once _ frontOnly_readText).bind fun _ => .pure _
  · exact (frontOnly_once _ frontOnly_readText).bind fun _ => .pure _
  · exact (frontOnly_once _ frontOnly_readBlob).bind fun _ => .pure _

/-! ### Edits and mutations -/

theorem frontOnly_kindAfter (head : Head) : (kindAfter head).FrontOnly := by
  cases head with
  | text n | binary n => exact (frontOnly_take n).bind fun _ => frontOnly_ofOption _
  | unsigned n =>
    simp only [kindAfter]
    split
    · exact .pure n
    · exact .fail
  | _ => exact .fail

/-- A kind that stands by itself, without a map around it. -/
theorem frontOnly_bareKind (head : Head) :
    (do match ← kindAfter head with
        | 2 => return Edit.deletePartition
        | _ => Reader.fail).FrontOnly := by
  refine (frontOnly_kindAfter head).bind fun kind => ?_
  split
  · exact .pure _
  · exact .fail

theorem frontOnly_readEdit (levels : Nat) : (readEdit levels).FrontOnly := by
  refine Head.frontOnly_read.bind fun head => ?_
  cases head with
  | map n =>
    dsimp only
    split
    · refine Head.frontOnly_read.bind fun head => (frontOnly_kindAfter head).bind fun kind => ?_
      split
      · exact frontOnly_readUpsert levels
      · exact frontOnly_readDeleteCell levels
      · refine Head.frontOnly_read.bind fun head => ?_
        cases head with
        | nil => exact .pure _
        | _ => exact .fail
    · exact .fail
  | _ => exact frontOnly_bareKind _

theorem frontOnly_readMutation (levels : Nat) : (readMutation levels).FrontOnly := by
  refine (frontOnly_structure fun s i => ?_).bind fun fields =>
    (frontOnly_ofOption _).bind fun _ => (frontOnly_ofOption _).bind fun _ =>
      (frontOnly_ofOption _).bind fun _ => .pure _
  dsimp only
  split
  · exact (frontOnly_once _ (frontOnly_readTable _)).bind fun _ => .pure _
  · exact (frontOnly_once _ frontOnly_readBlob).bind fun _ => .pure _
  · exact (frontOnly_once _ (frontOnly_sequence (frontOnly_readEdit _))).bind fun _ => .pure _

/-- **A mutation set in MessagePack** is read off the front. -/
theorem frontOnly_read : read.FrontOnly := frontOnly_sequence (frontOnly_readMutation _)

end MutationSet

/-! ### Payloads -/

namespace Format

/-- **A format reads whole payloads only,** as far as a log record can hold what was written. -/
structure OnlyWhole (f : Format) : Prop where
  /-- Every mutation set is written. -/
  written : ∀ ms, ∃ payload, f.encode ms = .ok payload
  /-- Bytes behind a payload are counted in `malformed`, and the length is that of all of it. -/
  trailing : ∀ ms payload, f.encode ms = .ok payload → payload.length ≤ Record.maxFramed →
    ∀ more, more ≠ [] → ∃ what,
      what.text = toString more.length ++ " trailing bytes after mutation set"
      ∧ f.decode (payload ++ more)
        = .error (.malformed f.version (payload.length + more.length) what)
  /-- No front of a payload is read, wherever it was cut. -/
  cut : ∀ ms payload, f.encode ms = .ok payload → payload.length ≤ Record.maxFramed →
    ∀ front, front <+: payload → front ≠ payload →
      ∃ what, f.decode front = .error (.malformed f.version front.length what)
  /-- No payload is the front of another one. -/
  apart : ∀ ms payload, f.encode ms = .ok payload → ∀ ms' payload', f.encode ms' = .ok payload' →
    payload'.length ≤ Record.maxFramed → payload <+: payload' → payload = payload'

/-- **Whole payloads only,** for a format that `RoundTrips` with a reader that is `FrontOnly`. -/
theorem onlyWhole_of_frontOnly {f : Format} {reader : Reader (List Mutation)} (h : f.RoundTrips)
    (hreader : f.decode = readWhole f.version reader) (hfront : reader.FrontOnly) :
    f.OnlyWhole := by
  have hread : ∀ {ms payload}, f.encode ms = .ok payload → payload.length ≤ Record.maxFramed →
      f.decode payload = .ok ms := by
    intro ms payload hencode hlength
    obtain ⟨payload', hencode', hdecode⟩ := h ms
    obtain rfl := Except.ok.inj (hencode'.symm.trans hencode)
    exact hdecode hlength
  have hcut : ∀ ms payload, f.encode ms = .ok payload → payload.length ≤ Record.maxFramed →
      ∀ front, front <+: payload → front ≠ payload →
        ∃ what, f.decode front = .error (.malformed f.version front.length what) := by
    rintro ms payload hencode hlength front ⟨tail, rfl⟩ hne
    have hwhole := hread hencode hlength
    rw [hreader] at hwhole ⊢
    refine malformed_of_readWhole fun ms' hread' => hne ?_
    -- A front that is read to its end leaves the tail of the whole, which leaves nothing.
    have htail := hfront.eq_nil_of_cut hread' (eq_some_of_readWhole hwhole)
    rw [← htail, List.append_nil]
  refine ⟨fun ms => (h ms).imp fun _ => And.left, ?_, hcut, ?_⟩
  · intro ms payload hencode hlength more hmore
    have hwhole := hread hencode hlength
    rw [hreader] at hwhole ⊢
    have hread' := hfront _ _ _ more (eq_some_of_readWhole hwhole)
    obtain ⟨b, rest, rfl⟩ := List.exists_cons_of_ne_nil hmore
    refine ⟨.trailing (b :: rest).length, rfl, ?_⟩
    rw [List.nil_append] at hread'
    simp only [readWhole, hread', List.length_append]
  · intro ms payload hencode ms' payload' hencode' hlength hprefix
    by_cases heq : payload = payload'
    · exact heq
    have hread' := hread hencode (Nat.le_trans hprefix.length_le hlength)
    obtain ⟨what, hmalformed⟩ := hcut ms' payload' hencode' hlength payload hprefix heq
    simp [hread'] at hmalformed

/-- **Both formats read whole payloads only:** `OnlyWhole`.  Bytes behind a payload are counted and
    refused, a payload cut short at any place is refused, and no payload is the front of another
    one. -/
theorem only_whole_payloads : fixedWidth.OnlyWhole ∧ messagePack.OnlyWhole :=
  ⟨onlyWhole_of_frontOnly roundTrips_fixedWidth rfl FixedWidth.frontOnly_mutations,
    onlyWhole_of_frontOnly roundTrips_messagePack rfl MutationSet.frontOnly_read⟩

/-- Two bytes behind a mutation of MessagePack, and the fixed-width one cut within its count of
    edits. -/
theorem only_whole_payloads_deletePartition :
    let ms : List Mutation := [⟨⟨"ks", "t"⟩, [0], [.deletePartition]⟩]
    (∃ what, what.text = "2 trailing bytes after mutation set"
      ∧ messagePack.decode (MutationSet.encode ms ++ [0x90, 0])
        = .error (.malformed ⟨2⟩ 29 what))
    ∧ (∃ what, fixedWidth.decode ((FixedWidth.encode ms).take 40)
      = .error (.malformed ⟨1⟩ 40 what))
    ∧ ¬ FixedWidth.encode [] <+: FixedWidth.encode ms := by
  intro ms
  obtain ⟨hfixed, hpack⟩ := only_whole_payloads
  refine ⟨?_, ?_, fun hprefix => ?_⟩
  · exact hpack.trailing ms _ rfl (by decide +kernel) [0x90, 0] (by decide)
  · exact hfixed.cut ms _ rfl (by decide +kernel) _ (List.take_prefix 40 _) (by decide +kernel)
  · have heq := hfixed.apart [] _ rfl ms _ rfl (by decide +kernel) hprefix
    exact absurd heq (by decide +kernel)

end Format

end BatchJournal
