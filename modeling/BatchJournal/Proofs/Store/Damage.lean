import BatchJournal.Proofs.Log.Checksum
import BatchJournal.Proofs.Store.AnyContent

namespace BatchJournal

/-!
# Recovery of a damaged log

Damage that lies within four bytes of a record, behind its length prefix, never goes unnoticed: the
record is refused for its checksum, and a log that contains it opens with the records in front of
it.

* `LogStore.detects_damage` — the damaged record, and the log around it.
-/

namespace LogStore

/-- **Local damage is always detected.** Let a record be written as `bs`, and let other bytes stand
    in a window of at most four of its bytes behind the length prefix, in kind, body or checksum or
    across them: `Record.Damaged bs damaged`.  Whatever stands behind the damaged bytes, the reader
    refuses them for their checksum: the word that is stored there is not that of the content in
    front of it.  And a log in which these bytes stand behind any records that can be written opens,
    under any options, with the effects of just these records one after another.  It is cut behind
    the last of them, and the refusal is said with the place where the damaged record began. -/
theorem detects_damage {r : Record} {bs damaged : Bytes} (hbytes : r.encode = .ok bs)
    (hdamaged : Record.Damaged bs damaged) :
    ∃ content stored, damaged = bs.take 4 ++ (content ++ stored) ∧ stored.length = 4
      ∧ Crc32.word stored ≠ Crc32.checksum content
      ∧ (∀ rest, Record.decode (damaged ++ rest)
        = .error (.checksumMismatch (Crc32.word stored) (Crc32.checksum content)))
      ∧ ∀ {head : Bytes} {before : List Record} {rest : Bytes} {d : Disk}, Header.Opens head →
        (∀ q ∈ before, q.encodedLength - 4 ≤ Record.maxFramed) → d.directory = .present →
        d.log = some (head ++ (Log.bytes before ++ (damaged ++ rest))) →
        ∀ directory options, ∃ s, openOn directory options d
            = (.ok (s, [.corrupt (.checksumMismatch (Crc32.word stored) (Crc32.checksum content))
                (head ++ Log.bytes before).length]),
              { d with log := some (head ++ Log.bytes before) })
          ∧ s.entries = before.foldl (fun es q => q.operation.effect es) .empty
          ∧ s.size = (head ++ Log.bytes before).length := by
  obtain ⟨content, stored, hparts, hstored, hmismatch, hrefused⟩ :=
    Record.decode_damaged hbytes hdamaged
  refine ⟨content, stored, hparts, hstored, hmismatch, hrefused, ?_⟩
  intro head before rest d hhead hfits hdir hlog directory options
  -- The records in front stand back to back, and behind them none is read any more.
  have hlongest : Log.Longest (Log.bytes before ++ (damaged ++ rest)) before (damaged ++ rest) :=
    (Log.backToBack_iff.2 ⟨rfl, hfits⟩).longest_of_error (hrefused rest)
  have hopens := openOn_of_longest hhead hlongest hdir hlog directory options
  have hne : damaged ++ rest ≠ [] := by
    rintro hnil
    have hshort := congrArg List.length hnil
    rw [hparts] at hshort
    simp [hstored] at hshort
  rw [Log.parse_of_error hne (hrefused rest)] at hopens
  refine ⟨opened (directory ++ "/" ++ fileName) options (.ofRecords before)
    (head ++ Log.bytes before).length, ?_, Index.entries_ofRecords before, rfl⟩
  rw [hopens, List.length_append, hhead.length_eq]
  rfl

/-- The last two bytes of a payload and the first two of the checksum behind it are cleared.  Of the
    three records of the log, the one in front is recovered. -/
theorem detects_damage_across_checksum :
    let r : Record := .put ⟨default, ⟨7⟩, ⟨1⟩, [10, 20, 30]⟩
    let damaged := r.bytes.take 38 ++ ([0, 0, 0, 0] ++ r.bytes.drop 42)
    let first : Record := .put ⟨default, ⟨5⟩, ⟨1⟩, [1]⟩
    let d : Disk := ⟨.present, some (Header.current.encode
      ++ (Log.bytes [first] ++ (damaged ++ (Record.delete default).bytes))), .free, none⟩
    ∃ expected computed s, expected ≠ computed
      ∧ openOn "batches" ⟨.always, .zero, 0, default⟩ d
        = (.ok (s, [.corrupt (.checksumMismatch expected computed) 58]),
          { d with log := some (Header.current.encode ++ first.bytes) })
      ∧ s.entries.get? default = some ⟨default, ⟨5⟩, ⟨1⟩, [1]⟩ := by
  intro r damaged first d
  -- The window lies over the end of the contents and the start of the checksum.
  have hbytes : r.encode
      = .ok (r.bytes.take 38 ++ ((r.bytes.drop 38).take 4 ++ r.bytes.drop 42)) := by
    decide +kernel
  have hdamaged : Record.Damaged (r.bytes.take 38 ++ ((r.bytes.drop 38).take 4 ++ r.bytes.drop 42))
      damaged :=
    .window (by decide +kernel) (by decide +kernel) (by decide +kernel) (by decide +kernel)
  -- The damaged record is refused for its checksum, and the log is cut in front of it.
  obtain ⟨content, stored, -, -, hmismatch, -, hlog⟩ := detects_damage hbytes hdamaged
  have hfits : ∀ q ∈ [first], q.encodedLength - 4 ≤ Record.maxFramed := by decide +kernel
  have hfile : d.log = some (Header.current.encode
    ++ (Log.bytes [first] ++ (damaged ++ (Record.delete default).bytes))) := rfl
  obtain ⟨s, hopens, hentries, -⟩ :=
    hlog Header.opens_current hfits rfl hfile "batches" ⟨.always, .zero, 0, default⟩
  -- The first record ends at 58, which is where the warning points.
  have hend : (Header.current.encode ++ Log.bytes [first]).length = 58 := by decide +kernel
  rw [hend] at hopens
  refine ⟨_, _, s, hmismatch, ?_, ?_⟩
  · rw [hopens, Log.bytes_cons, Log.bytes_nil, List.append_nil]
  · rw [hentries]
    rfl

end LogStore

end BatchJournal
