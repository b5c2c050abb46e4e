import MessageFraming.Record.Error
import MessageFraming.Record.Skip

/-!
# Records in JSON text

A record is written as an object with one member for each field. It is read from such an object,
with the members in any order and unknown ones passed over, or from an array of the values in field
order. An optional field that is absent keeps its value of the blank record; any other must be
there.

Reading goes through the text once and stops at the first problem. A key seen before is refused
before its value is looked at; an absent field is noticed at the closing bracket.
-/

namespace MessageFraming

namespace Record

/-- Where a field stands in records `ρ`, and of what type it is. -/
inductive Access (ρ : Type) where
  | count (get : ρ → Nat) (set : Nat → ρ → ρ)
  | flag (get : ρ → Bool) (set : Bool → ρ → ρ)

structure Field (ρ : Type) where
  name : String
  required : Bool
  access : Access ρ

/-- How a type of records is written. -/
structure Form (ρ : Type) where
  /-- Holds the values of absent fields. -/
  blank : ρ
  fields : List (Field ρ)

/-! ## Values -/

/-- The numeral here, if it is one that can be represented. -/
def readNumber (text : List Char) : Option (Numeral × List Char) :=
  (readNumeral text).filter fun (n, _) => n.integer?.isSome || n.inRange

theorem readNumber_length_lt {text rest : List Char} {numeral : Numeral}
    (h : readNumber text = some (numeral, rest)) : rest.length < text.length := by
  simp only [readNumber, Option.filter_eq_some_iff] at h
  exact readNumeral_length_lt h.1

/-- The error for a value that is of another type than wanted. -/
def mismatch (text : List Char) : RecordError :=
  match skipBlanks text with
  | [] => .malformed
  | c :: rest =>
    if c = '[' ∨ c = '{' then .invalidType
    else if startsNumeral (c :: rest) then
      if (readNumber (c :: rest)).isSome then .invalidType else .malformed
    else if c = '"' then
      if (readString (c :: rest)).isSome then .invalidType else .malformed
    else if (skipScalar (c :: rest)).isSome then .invalidType
    else .malformed

def readCount (text : List Char) : Except RecordError (Nat × List Char) :=
  if startsNumeral (skipBlanks text) then
    match readNumber (skipBlanks text) with
    | none => .error .malformed
    | some (numeral, rest) =>
      match numeral.integer? with
      | none => .error .invalidType
      | some value => if value < 0 then .error .invalidValue else .ok (value.toNat, rest)
  else .error (mismatch text)

theorem readCount_length_le {text rest : List Char} {value : Nat}
    (h : readCount text = .ok (value, rest)) : rest.length ≤ text.length := by
  unfold readCount at h
  have hle := skipBlanks_length_le text
  split at h
  · split at h
    · simp at h
    · rename_i hnumber
      have := readNumber_length_lt hnumber
      split at h
      · simp at h
      · split at h
        · simp at h
        · simp only [Except.ok.injEq, Prod.mk.injEq] at h
          rw [← h.2]
          omega
  · simp at h

def readFlag (text : List Char) : Except RecordError (Bool × List Char) :=
  match readWord ['t', 'r', 'u', 'e'] (skipBlanks text) with
  | some rest => .ok (true, rest)
  | none =>
    match readWord ['f', 'a', 'l', 's', 'e'] (skipBlanks text) with
    | some rest => .ok (false, rest)
    | none => .error (mismatch text)

theorem readFlag_length_le {text rest : List Char} {value : Bool}
    (h : readFlag text = .ok (value, rest)) : rest.length ≤ text.length := by
  unfold readFlag at h
  have hle := skipBlanks_length_le text
  split at h
  · rename_i hword
    have := readWord_length hword
    simp only [Except.ok.injEq, Prod.mk.injEq] at h
    rw [← h.2]
    omega
  · split at h
    · rename_i hword
      have := readWord_length hword
      simp only [Except.ok.injEq, Prod.mk.injEq] at h
      rw [← h.2]
      omega
    · simp at h

variable {ρ : Type}

/-- Reads the value of a field into a record. -/
def Field.read (field : Field ρ) (record : ρ) (text : List Char) :
    Except RecordError (ρ × List Char) :=
  match field.access with
  | .count _ set => (readCount text).map fun (value, rest) => (set value record, rest)
  | .flag _ set => (readFlag text).map fun (value, rest) => (set value record, rest)

theorem Field.read_length_le {field : Field ρ} {record filled : ρ} {text rest : List Char}
    (h : field.read record text = .ok (filled, rest)) : rest.length ≤ text.length := by
  unfold Field.read at h
  split at h
  · rcases hvalue : readCount text with _ | ⟨value, behind⟩
    · simp [hvalue, Except.map] at h
    · simp only [hvalue, Except.map, Except.ok.injEq, Prod.mk.injEq] at h
      rw [← h.2]
      exact readCount_length_le hvalue
  · rcases hvalue : readFlag text with _ | ⟨value, behind⟩
    · simp [hvalue, Except.map] at h
    · simp only [hvalue, Except.map, Except.ok.injEq, Prod.mk.injEq] at h
      rw [← h.2]
      exact readFlag_length_le hvalue

/-! ## Arrays -/

/-- Reads the values of `fields` in order, up to the closing bracket. -/
def readElements (first : Bool) : List (Field ρ) → ρ → List Char →
    Except RecordError (ρ × List Char)
  | [], record, text =>
    match nextItem ']' first text with
    | some (.closed rest) => .ok (record, rest)
    | _ => .error .malformed
  | field :: fields, record, text =>
    match nextItem ']' first text with
    | none => .error .malformed
    | some (.closed rest) =>
      if (field :: fields).any (·.required) then .error .invalidLength else .ok (record, rest)
    | some (.item item) =>
      match field.read record item with
      | .error e => .error e
      | .ok (record, rest) => readElements false fields record rest

/-! ## Objects -/

namespace Form

/-- Reads members up to the closing bracket; `seen` are the names that came before. -/
def readMembers (form : Form ρ) (seen : List String) (first : Bool) (record : ρ)
    (text : List Char) : Except RecordError (ρ × List Char) :=
  match _hitem : nextItem '}' first text with
  | none => .error .malformed
  | some (.closed rest) =>
    match form.fields.find? fun field => field.required && !seen.contains field.name with
    | some field => .error (.missingField field.name)
    | none => .ok (record, rest)
  | some (.item item) =>
    match _hkey : readString item with
    | none => .error .malformed
    | some (key, behind) =>
      match form.fields.find? (·.name.toList == key) with
      | none =>
        match _hskip : (readColon behind).bind skipValue with
        | none => .error .malformed
        | some rest => readMembers form seen false record rest
      | some field =>
        if seen.contains field.name then .error (.duplicateField field.name)
        else
          match _hcolon : readColon behind with
          | none => .error .malformed
          | some value =>
            match _hvalue : field.read record value with
            | .error e => .error e
            | .ok (record, rest) => readMembers form (field.name :: seen) false record rest
termination_by text.length
decreasing_by
  · have := nextItem_item_length_le _hitem
    have := readString_length_lt _hkey
    obtain ⟨value, hcolon, hskip⟩ := Option.bind_eq_some_iff.mp _hskip
    have := readColon_length_lt hcolon
    have := skipValue_length_le hskip
    omega
  · have := nextItem_item_length_le _hitem
    have := readString_length_lt _hkey
    have := readColon_length_lt _hcolon
    have := Field.read_length_le _hvalue
    omega

/-! ## Whole texts -/

/-- Reads one record, an array or an object, off the front of a text. -/
def readFront (form : Form ρ) (text : List Char) : Except RecordError (ρ × List Char) :=
  match skipBlanks text with
  | '[' :: rest => readElements true form.fields form.blank rest
  | '{' :: rest => form.readMembers [] true form.blank rest
  | _ => .error (mismatch text)

/-- The record that a text holds, with nothing but blanks around it. -/
def ofText (form : Form ρ) (text : String) : Except RecordError ρ :=
  match form.readFront text.toList with
  | .error e => .error e
  | .ok (record, rest) => if (skipBlanks rest).isEmpty then .ok record else .error .malformed

/-! ## Writing -/

/-- A field of a record as an object's member. -/
def member (record : ρ) (field : Field ρ) : String :=
  "\"" ++ field.name ++ "\":" ++
    match field.access with
    | .count get _ => toString (get record)
    | .flag get _ => if get record then "true" else "false"

/-- A record as text: its fields in order, and no blanks. -/
def toText (form : Form ρ) (record : ρ) : String :=
  "\x7b" ++ String.intercalate "," (form.fields.map (member record)) ++ "\x7d"

end Form

end Record

end MessageFraming
