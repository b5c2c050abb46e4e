/-!
# Record errors

Why a text is not the record it should be. Reading stops at the first problem, so of several faults
the one met first is the one reported.
-/

namespace MessageFraming

inductive RecordError where
  /-- The text is no JSON, ends too early or goes on too long. -/
  | malformed
  /-- A value is of the wrong type. -/
  | invalidType
  /-- A value is of the right type but out of range. -/
  | invalidValue
  /-- An array has too few elements. -/
  | invalidLength
  | missingField (name : String)
  | duplicateField (name : String)
deriving Repr, DecidableEq

namespace RecordError

/-- The errors about a field say which one. -/
def message? : RecordError → Option String
  | missingField name => some ("missing field `" ++ name ++ "`")
  | duplicateField name => some ("duplicate field `" ++ name ++ "`")
  | _ => none

end RecordError

end MessageFraming
