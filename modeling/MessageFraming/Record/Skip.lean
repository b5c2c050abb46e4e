import MessageFraming.Record.Numeral

/-!
# Passing over values

A field that a record does not know has a value all the same, of any type and any depth. `skipValue`
takes it off the text and checks no more than that it is JSON: the range of numbers and the pairing
of code units are not looked at.
-/

namespace MessageFraming

namespace Record

/-- A bracket that was opened. -/
inductive Bracket where
  | array
  | object
deriving Repr, DecidableEq

def Bracket.closing : Bracket → Char
  | array => ']'
  | object => '}'

/-- Takes off an opening bracket. -/
def readBracket : List Char → Option (Bracket × List Char)
  | '[' :: rest => some (.array, rest)
  | '{' :: rest => some (.object, rest)
  | _ => none

theorem readBracket_length_lt {text rest : List Char} {bracket : Bracket}
    (h : readBracket text = some (bracket, rest)) : rest.length < text.length := by
  unfold readBracket at h
  split at h
  · simp only [Option.some.injEq, Prod.mk.injEq] at h
    simp [h.2]
  · simp only [Option.some.injEq, Prod.mk.injEq] at h
    simp [h.2]
  · simp at h

/-- The word that starts with a letter. -/
def wordFrom? : Char → Option (List Char)
  | 'n' => some ['n', 'u', 'l', 'l']
  | 't' => some ['t', 'r', 'u', 'e']
  | 'f' => some ['f', 'a', 'l', 's', 'e']
  | _ => none

theorem wordFrom?_length_pos {c : Char} {word : List Char} (h : wordFrom? c = some word) :
    0 < word.length := by
  unfold wordFrom? at h
  split at h <;> simp at h <;> simp [← h]

/-- Passes over a word, a string or a number. -/
def skipScalar (text : List Char) : Option (List Char) :=
  match text with
  | [] => none
  | c :: _ =>
    if c = '"' then skipString text
    else
      match wordFrom? c with
      | some word => readWord word text
      | none => (readNumeral text).map (·.2)

theorem skipScalar_length_lt {text rest : List Char} (h : skipScalar text = some rest) :
    rest.length < text.length := by
  unfold skipScalar at h
  split at h
  · simp at h
  · split at h
    · exact skipString_length_lt h
    · split at h
      · rename_i hword
        have := wordFrom?_length_pos hword
        have := readWord_length h
        omega
      · simp only [Option.map_eq_some_iff, Prod.exists, exists_eq_right] at h
        obtain ⟨numeral, h⟩ := h
        exact readNumeral_length_lt h

/-- Passes over the key of a member and the colon behind it. -/
def skipKey (text : List Char) : Option (List Char) := (skipString text).bind readColon

theorem skipKey_length_lt {text rest : List Char} (h : skipKey text = some rest) :
    rest.length < text.length := by
  simp only [skipKey, Option.bind_eq_some_iff] at h
  obtain ⟨behind, hkey, hcolon⟩ := h
  have := skipString_length_lt hkey
  have := readColon_length_lt hcolon
  omega

/-- What is due in the text. -/
inductive Due where
  | value
  /-- The next item of the innermost bracket, or that bracket's end. -/
  | item (first : Bool)

def Due.rank : Due → Nat
  | value => 0
  | item _ => 1

/-- Passes over what is due, and on until every bracket in `brackets` is closed. -/
def skipWithin (due : Due) (brackets : List Bracket) (text : List Char) : Option (List Char) :=
  match due with
  | .value =>
    match _hopen : readBracket (skipBlanks text) with
    | some (bracket, rest) => skipWithin (.item true) (bracket :: brackets) rest
    | none =>
      match _hscalar : skipScalar (skipBlanks text) with
      | none => none
      | some rest => skipWithin (.item false) brackets rest
  | .item first =>
    match brackets with
    | [] => some text
    | bracket :: outer =>
      match _hitem : nextItem bracket.closing first text with
      | none => none
      | some (.closed rest) => skipWithin (.item false) outer rest
      | some (.item item) =>
        match bracket with
        | .array => skipWithin .value (.array :: outer) item
        | .object =>
          match _hkey : skipKey item with
          | none => none
          | some rest => skipWithin .value (.object :: outer) rest
termination_by (text.length, due.rank)
decreasing_by
  · have hle := skipBlanks_length_le text
    have := readBracket_length_lt _hopen
    exact Prod.Lex.left _ _ (by omega)
  · have hle := skipBlanks_length_le text
    have := skipScalar_length_lt _hscalar
    exact Prod.Lex.left _ _ (by omega)
  · exact Prod.Lex.left _ _ (nextItem_closed_length_lt _hitem)
  · have hle := nextItem_item_length_le _hitem
    rcases Nat.lt_or_eq_of_le hle with hlt | heq
    · exact Prod.Lex.left _ _ hlt
    · rw [heq]
      exact Prod.Lex.right _ (by simp [Due.rank])
  · have hle := nextItem_item_length_le _hitem
    have := skipKey_length_lt _hkey
    exact Prod.Lex.left _ _ (by omega)

theorem skipWithin_length_le {due : Due} {brackets : List Bracket} {text rest : List Char}
    (h : skipWithin due brackets text = some rest) : rest.length ≤ text.length := by
  fun_induction skipWithin due brackets text with
  | case1 brackets text bracket behind hopen ih =>
    have hle := skipBlanks_length_le text
    have := readBracket_length_lt hopen
    have := ih h
    omega
  | case2 => simp at h
  | case3 brackets text _ behind hscalar ih =>
    have hle := skipBlanks_length_le text
    have := skipScalar_length_lt hscalar
    have := ih h
    omega
  | case4 text first =>
    simp only [Option.some.injEq] at h
    simp [h]
  | case5 => simp at h
  | case6 text first bracket outer behind hclosed ih =>
    have := nextItem_closed_length_lt hclosed
    have := ih h
    omega
  | case7 text first outer item _ hitem ih =>
    have := nextItem_item_length_le hitem
    have := ih h
    omega
  | case8 => simp at h
  | case9 text first outer item _ behind hkey hitem ih =>
    have := nextItem_item_length_le hitem
    have := skipKey_length_lt hkey
    have := ih h
    omega

/-- Passes over one value. -/
def skipValue (text : List Char) : Option (List Char) := skipWithin .value [] text

theorem skipValue_length_le {text rest : List Char} (h : skipValue text = some rest) :
    rest.length ≤ text.length :=
  skipWithin_length_le h

end Record

end MessageFraming
