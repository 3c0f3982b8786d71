import BatchJournal.Batch.Entry

namespace BatchJournal

/-!
# Codec errors

A mutation format refuses a payload as malformed, or a mutation set it cannot write; the registry
refuses versions it does not know.
-/

/-- What is wrong with a payload. -/
inductive Malformation where
  /-- Bytes are left after the mutation set. -/
  | trailing (count : Nat)
  /-- A payload of one byte was expected. -/
  | notOneByte
  /-- The bytes do not spell a mutation set. -/
  | unreadable (reason : String)
deriving DecidableEq, Repr

/-- The text of a malformation. -/
def Malformation.text : Malformation → String
  | .trailing count => toString count ++ " trailing bytes after mutation set"
  | .notOneByte => "not one byte"
  | .unreadable reason => reason

/-- Why a payload was not decoded or a mutation set not encoded. -/
inductive CodecError where
  /-- No format is registered for the version. -/
  | unsupportedVersion (version : FormatVersion)
  /-- The payload, of the given length, is not one of the version. -/
  | malformed (version : FormatVersion) (length : Nat) (what : Malformation)
  /-- The format cannot write the mutation set. -/
  | unencodable (version : FormatVersion) (reason : String)
deriving DecidableEq, Repr

/-- The text of a codec error. -/
def CodecError.message : CodecError → String
  | .unsupportedVersion v => "Unsupported codec version: " ++ v.text
  | .malformed v length what =>
    "Malformed payload (version=" ++ v.text ++ ", len=" ++ toString length ++ "): " ++ what.text
  | .unencodable v reason => "Encode error (version=" ++ v.text ++ "): " ++ reason

end BatchJournal
