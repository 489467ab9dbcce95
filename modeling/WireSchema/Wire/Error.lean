/-!
Why bytes cannot be read as a record.
-/

namespace WireSchema

inductive VarintError where
  | tooLong
  | truncated (read : Nat)
  deriving DecidableEq, Repr

def VarintError.message : VarintError → String
  | .tooLong => "varint exceeds 32 bits"
  | .truncated read => s!"input ended after {read} varint byte(s)"

inductive DecodeError where
  /-- A length or count that says null, for a field that cannot be null. -/
  | unexpectedNull (field : String)
  | invalidLength (field : String) (length : Nat)
  | varint (cause : VarintError)
  | unexpectedEnd (requested available : Nat)
  | nestingTooDeep (limit : Nat)
  /-- A failure inside the record that a field holds. -/
  | nested (record field : String) (cause : DecodeError)
  deriving DecidableEq, Repr

namespace DecodeError

def message : DecodeError → String
  | unexpectedNull field => s!"non-nullable field '{field}' was serialized as null"
  | invalidLength field length => s!"field '{field}' has invalid length {length}"
  | varint cause => "problem reading unsigned varint: " ++ cause.message
  | unexpectedEnd requested available =>
    s!"unexpected end of input: needed {requested} byte(s), {available} available"
  | nestingTooDeep limit => s!"record nesting exceeds {limit} levels"
  | nested record field cause =>
    s!"problem decoding field '{field}' of '{record}': " ++ cause.message

/-- The failure itself, without the fields that lead to it. -/
def rootCause : DecodeError → DecodeError
  | nested _ _ cause => cause.rootCause
  | e => e

end DecodeError

end WireSchema
