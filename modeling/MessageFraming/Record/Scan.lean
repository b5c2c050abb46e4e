/-!
# Scanning JSON text

The pieces that JSON text is made of: blanks, fixed words, strings, and the brackets and commas
around items. A scanner takes its piece off the front of a text and gives back what stands behind
it; none means that the text is malformed there. Each scanner has a lemma that says how much shorter
the text gets, which is what ends the loops over them.
-/

namespace MessageFraming

namespace Record

/-! ## Blanks and words -/

def isBlank (c : Char) : Bool := c == ' ' || c == '\n' || c == '\t' || c == '\r'

def skipBlanks (text : List Char) : List Char := text.dropWhile isBlank

theorem skipBlanks_length_le (text : List Char) : (skipBlanks text).length ≤ text.length :=
  (List.dropWhile_sublist isBlank).length_le

/-- Takes off a fixed word. -/
def readWord : (word text : List Char) → Option (List Char)
  | [], text => some text
  | _ :: _, [] => none
  | w :: word, c :: text => if w = c then readWord word text else none

theorem readWord_length {word text rest : List Char} (h : readWord word text = some rest) :
    rest.length + word.length = text.length := by
  induction word generalizing text with
  | nil => simp_all [readWord]
  | cons w word ih =>
    cases text with
    | nil => simp [readWord] at h
    | cons c text =>
      simp only [readWord] at h
      split at h
      · have := ih h
        simp only [List.length_cons]
        omega
      · simp at h

/-- Takes off the colon between a key and its value. -/
def readColon (text : List Char) : Option (List Char) := readWord [':'] (skipBlanks text)

theorem readColon_length_lt {text rest : List Char} (h : readColon text = some rest) :
    rest.length < text.length := by
  have hword := readWord_length h
  have hblanks := skipBlanks_length_le text
  simp only [List.length_cons, List.length_nil] at hword
  omega

/-! ## Strings -/

def hexDigit? (c : Char) : Option Nat :=
  if c.isDigit then some (c.toNat - '0'.toNat)
  else if 'a' ≤ c ∧ c ≤ 'f' then some (c.toNat - 'a'.toNat + 10)
  else if 'A' ≤ c ∧ c ≤ 'F' then some (c.toNat - 'A'.toNat + 10)
  else none

/-- Four hexadecimal digits. -/
def readUnit : List Char → Option (Nat × List Char)
  | a :: b :: c :: d :: rest =>
    match hexDigit? a, hexDigit? b, hexDigit? c, hexDigit? d with
    | some a, some b, some c, some d => some (4096 * a + 256 * b + 16 * c + d, rest)
    | _, _, _, _ => none
  | _ => none

theorem readUnit_length {text rest : List Char} {unit : Nat}
    (h : readUnit text = some (unit, rest)) : rest.length + 4 = text.length := by
  unfold readUnit at h
  split at h
  · split at h
    · simp only [Option.some.injEq, Prod.mk.injEq] at h
      rw [← h.2]
      simp
    · simp at h
  · simp at h

def isLeading (unit : Nat) : Bool := 0xd800 ≤ unit && unit ≤ 0xdbff

def isTrailing (unit : Nat) : Bool := 0xdc00 ≤ unit && unit ≤ 0xdfff

/-- A character written as one code unit, or as a leading and a trailing one. A leading or trailing
unit alone is refused. -/
def readCodePoint (text : List Char) : Option (Char × List Char) :=
  match readUnit text with
  | none => none
  | some (unit, rest) =>
    if isTrailing unit then none
    else if isLeading unit then
      match rest with
      | '\\' :: 'u' :: second =>
        match readUnit second with
        | none => none
        | some (low, rest) =>
          if isTrailing low then
            some (Char.ofNat (0x10000 + (unit - 0xd800) * 0x400 + (low - 0xdc00)), rest)
          else none
      | _ => none
    else some (Char.ofNat unit, rest)

theorem readCodePoint_length_lt {text rest : List Char} {c : Char}
    (h : readCodePoint text = some (c, rest)) : rest.length < text.length := by
  unfold readCodePoint at h
  split at h
  · simp at h
  · rename_i unit behind hunit
    have hlength := readUnit_length hunit
    split at h
    · simp at h
    · split at h
      · split at h
        · rename_i second
          split at h
          · simp at h
          · rename_i low last hlow
            have hsecond := readUnit_length hlow
            split at h
            · simp only [Option.some.injEq, Prod.mk.injEq] at h
              rw [← h.2]
              simp only [List.length_cons] at hlength
              omega
            · simp at h
        · simp at h
      · simp only [Option.some.injEq, Prod.mk.injEq] at h
        rw [← h.2]
        omega

/-- The character that a backslash and one letter stand for. -/
def shortEscape? : Char → Option Char
  | '"' => some '"'
  | '\\' => some '\\'
  | '/' => some '/'
  | 'b' => some '\x08'
  | 'f' => some '\x0c'
  | 'n' => some '\n'
  | 'r' => some '\r'
  | 't' => some '\t'
  | _ => none

/-- What follows a backslash. -/
def readEscape : List Char → Option (Char × List Char)
  | [] => none
  | 'u' :: text => readCodePoint text
  | letter :: text => (shortEscape? letter).map fun c => (c, text)

theorem readEscape_length_lt {text rest : List Char} {c : Char}
    (h : readEscape text = some (c, rest)) : rest.length < text.length := by
  unfold readEscape at h
  split at h
  · simp at h
  · have := readCodePoint_length_lt h
    simp only [List.length_cons]
    omega
  · simp only [Option.map_eq_some_iff, Prod.mk.injEq] at h
    obtain ⟨_, _, _, rfl⟩ := h
    simp

def isControl (c : Char) : Bool := c.toNat < 0x20

/-- The rest of a string behind its opening quote, with `newestFirst` read already. -/
def readCharacters (newestFirst : List Char) (text : List Char) :
    Option (List Char × List Char) :=
  match text with
  | [] => none
  | '"' :: rest => some (newestFirst.reverse, rest)
  | '\\' :: rest =>
    match _h : readEscape rest with
    | none => none
    | some (c, rest) => readCharacters (c :: newestFirst) rest
  | c :: rest => if isControl c then none else readCharacters (c :: newestFirst) rest
termination_by text.length
decreasing_by
  · have := readEscape_length_lt _h
    simp only [List.length_cons]
    omega
  · simp

theorem readCharacters_length_lt {newestFirst text value rest : List Char}
    (h : readCharacters newestFirst text = some (value, rest)) : rest.length < text.length := by
  fun_induction readCharacters newestFirst text with
  | case1 => simp at h
  | case2 =>
    simp only [Option.some.injEq, Prod.mk.injEq] at h
    simp [← h.2]
  | case3 => simp at h
  | case4 newestFirst behind c after hescape ih =>
    have hrest := ih h
    have := readEscape_length_lt hescape
    simp only [List.length_cons]
    omega
  | case5 => simp at h
  | case6 newestFirst c behind _ _ _ ih =>
    have hrest := ih h
    simp only [List.length_cons]
    omega

/-- A string with its quotes. -/
def readString : List Char → Option (List Char × List Char)
  | '"' :: text => readCharacters [] text
  | _ => none

theorem readString_length_lt {text value rest : List Char}
    (h : readString text = some (value, rest)) : rest.length < text.length := by
  unfold readString at h
  split at h
  · have := readCharacters_length_lt h
    simp only [List.length_cons]
    omega
  · simp at h

/-- Passes over the rest of a string. A leading or trailing code unit may stand alone here. -/
def skipCharacters (text : List Char) : Option (List Char) :=
  match text with
  | [] => none
  | '"' :: rest => some rest
  | '\\' :: 'u' :: rest =>
    match _h : readUnit rest with
    | none => none
    | some (_, rest) => skipCharacters rest
  | '\\' :: letter :: rest => if (shortEscape? letter).isSome then skipCharacters rest else none
  | c :: rest => if isControl c || c == '\\' then none else skipCharacters rest
termination_by text.length
decreasing_by
  · have := readUnit_length _h
    simp only [List.length_cons]
    omega
  · simp only [List.length_cons]
    omega
  · simp

theorem skipCharacters_length_lt {text rest : List Char} (h : skipCharacters text = some rest) :
    rest.length < text.length := by
  fun_induction skipCharacters text with
  | case1 => simp at h
  | case2 =>
    simp only [Option.some.injEq] at h
    simp [← h]
  | case3 => simp at h
  | case4 behind _ after hunit ih =>
    have hrest := ih h
    have := readUnit_length hunit
    simp only [List.length_cons]
    omega
  | case5 _ _ _ _ ih =>
    have hrest := ih h
    simp only [List.length_cons]
    omega
  | case6 => simp at h
  | case7 => simp at h
  | case8 _ _ _ _ _ _ ih =>
    have hrest := ih h
    simp only [List.length_cons]
    omega

/-- Passes over a string with its quotes. -/
def skipString : List Char → Option (List Char)
  | '"' :: text => skipCharacters text
  | _ => none

theorem skipString_length_lt {text rest : List Char} (h : skipString text = some rest) :
    rest.length < text.length := by
  unfold skipString at h
  split at h
  · have := skipCharacters_length_lt h
    simp only [List.length_cons]
    omega
  · simp at h

/-! ## Items between brackets -/

/-- How an array or an object goes on. -/
inductive Item where
  /-- It ends; `rest` stands behind the bracket. -/
  | closed (rest : List Char)
  /-- Something else starts `text`. -/
  | item (text : List Char)

/-- What comes next between brackets. Every item but the first has a comma in front of it, and none
stands behind the last. -/
def nextItem (close : Char) (first : Bool) (text : List Char) : Option Item :=
  match skipBlanks text with
  | [] => none
  | c :: rest =>
    if c = close then some (.closed rest)
    else if first then some (.item (c :: rest))
    else if c = ',' then
      match skipBlanks rest with
      | [] => none
      | d :: rest => if d = close then none else some (.item (d :: rest))
    else none

theorem nextItem_closed_length_lt {close : Char} {first : Bool} {text rest : List Char}
    (h : nextItem close first text = some (.closed rest)) : rest.length < text.length := by
  unfold nextItem at h
  have hle := skipBlanks_length_le text
  split at h
  · simp at h
  · rename_i c behind hc
    rw [hc, List.length_cons] at hle
    split at h
    · simp only [Option.some.injEq, Item.closed.injEq] at h
      subst h
      omega
    · split at h
      · simp at h
      · split at h
        · split at h
          · simp at h
          · split at h <;> simp at h
        · simp at h

theorem nextItem_item_length_le {close : Char} {first : Bool} {text item : List Char}
    (h : nextItem close first text = some (.item item)) : item.length ≤ text.length := by
  unfold nextItem at h
  have hle := skipBlanks_length_le text
  split at h
  · simp at h
  · rename_i c behind hc
    rw [hc, List.length_cons] at hle
    split at h
    · simp at h
    · split at h
      · simp only [Option.some.injEq, Item.item.injEq] at h
        rw [← h, List.length_cons]
        omega
      · split at h
        · have hnext := skipBlanks_length_le behind
          split at h
          · simp at h
          · rename_i d after hd
            rw [hd, List.length_cons] at hnext
            split at h
            · simp at h
            · simp only [Option.some.injEq, Item.item.injEq] at h
              rw [← h, List.length_cons]
              omega
        · simp at h

end Record

end MessageFraming
