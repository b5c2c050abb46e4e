import MessageFraming.Units
import MessageFraming.Record.Scan

/-!
# Numbers in text

A numeral has a sign, whole digits, and perhaps a fraction and an exponent. Zero is the only one
that may start with the digit `0`.

A numeral without fraction and exponent that fits in a 64-bit word, or is negative and fits in a
signed one, stands for that integer. Every other one (`-0` too) stands for a number with a fraction,
and has to be within the range of double precision. For that range only the leading digits count
that fit in a word (`Numeral.significand`); the others move the exponent.
-/

namespace MessageFraming

namespace Record

structure Numeral where
  negative : Bool
  whole : List Char
  fraction : Option (List Char)
  exponent : Option Int
deriving Repr, DecidableEq

def digitValue (c : Char) : Nat := c.toNat - '0'.toNat

def decimalValue (digits : List Char) : Nat := digits.foldl (fun n c => 10 * n + digitValue c) 0

/-! ## Scanning -/

/-- One digit or more. -/
def readDigits (text : List Char) : Option (List Char × List Char) :=
  if (text.takeWhile Char.isDigit).isEmpty then none
  else some (text.takeWhile Char.isDigit, text.dropWhile Char.isDigit)

/-- Digits are at least one character. -/
theorem readDigits_length_lt {text digits rest : List Char}
    (h : readDigits text = some (digits, rest)) : rest.length < text.length := by
  unfold readDigits at h
  split at h
  · simp at h
  · rename_i hne
    simp only [Option.some.injEq, Prod.mk.injEq] at h
    have hsum := congrArg List.length
      (List.takeWhile_append_dropWhile (p := Char.isDigit) (l := text))
    rw [List.length_append] at hsum
    have hpos : 0 < (text.takeWhile Char.isDigit).length := by
      rw [List.length_pos_iff]
      simpa using hne
    rw [← h.2]
    omega

/-- A point and digits, if there is a point. -/
def readFraction : List Char → Option (Option (List Char) × List Char)
  | '.' :: text => (readDigits text).map fun (digits, rest) => (some digits, rest)
  | text => some (none, text)

theorem readFraction_length_le {text rest : List Char} {fraction : Option (List Char)}
    (h : readFraction text = some (fraction, rest)) : rest.length ≤ text.length := by
  unfold readFraction at h
  split at h
  · simp only [Option.map_eq_some_iff, Prod.mk.injEq, Prod.exists] at h
    obtain ⟨digits, behind, hdigits, _, rfl⟩ := h
    have := readDigits_length_lt hdigits
    simp only [List.length_cons]
    omega
  · simp only [Option.some.injEq, Prod.mk.injEq] at h
    simp [h.2]

/-- An optional sign; whether it is a minus. -/
def readSign : List Char → Bool × List Char
  | '-' :: text => (true, text)
  | '+' :: text => (false, text)
  | text => (false, text)

theorem readSign_length_le (text : List Char) : (readSign text).2.length ≤ text.length := by
  unfold readSign
  split <;> simp

/-- The letter `e` or `E` and an integer, if there is such a letter. -/
def readExponent : List Char → Option (Option Int × List Char)
  | [] => some (none, [])
  | c :: text =>
    if c = 'e' ∨ c = 'E' then
      (readDigits (readSign text).2).map fun (digits, rest) =>
        (some (if (readSign text).1 then -(decimalValue digits : Int) else decimalValue digits),
          rest)
    else some (none, c :: text)

theorem readExponent_length_le {text rest : List Char} {exponent : Option Int}
    (h : readExponent text = some (exponent, rest)) : rest.length ≤ text.length := by
  unfold readExponent at h
  split at h
  · simp only [Option.some.injEq, Prod.mk.injEq] at h
    simp [← h.2]
  · rename_i c behind
    split at h
    · simp only [Option.map_eq_some_iff, Prod.mk.injEq, Prod.exists] at h
      obtain ⟨digits, rest, hdigits, _, rfl⟩ := h
      have := readDigits_length_lt hdigits
      have := readSign_length_le behind
      simp only [List.length_cons]
      omega
    · simp only [Option.some.injEq, Prod.mk.injEq] at h
      simp [← h.2]

/-- Whole digits: `0`, or digits that do not start with it. -/
def readWhole (text : List Char) : Option (List Char × List Char) :=
  match readDigits text with
  | none => none
  | some ('0' :: _ :: _, _) => none
  | some (digits, rest) => some (digits, rest)

theorem readWhole_length_lt {text digits rest : List Char}
    (h : readWhole text = some (digits, rest)) : rest.length < text.length := by
  unfold readWhole at h
  split at h
  · simp at h
  · simp at h
  · rename_i hdigits
    simp only [Option.some.injEq, Prod.mk.injEq] at h
    rw [← h.2]
    exact readDigits_length_lt hdigits

/-- The digits and all that belongs to them, behind the sign. -/
def readUnsigned (negative : Bool) (text : List Char) : Option (Numeral × List Char) :=
  match readWhole text with
  | none => none
  | some (whole, rest) =>
    match readFraction rest with
    | none => none
    | some (fraction, rest) =>
      (readExponent rest).map fun (exponent, rest) => (⟨negative, whole, fraction, exponent⟩, rest)

theorem readUnsigned_length_lt {negative : Bool} {text rest : List Char} {numeral : Numeral}
    (h : readUnsigned negative text = some (numeral, rest)) : rest.length < text.length := by
  unfold readUnsigned at h
  split at h
  · simp at h
  · rename_i hwhole
    have := readWhole_length_lt hwhole
    split at h
    · simp at h
    · rename_i hfraction
      have := readFraction_length_le hfraction
      simp only [Option.map_eq_some_iff, Prod.mk.injEq, Prod.exists] at h
      obtain ⟨exponent, behind, hexponent, _, rfl⟩ := h
      have := readExponent_length_le hexponent
      omega

def readNumeral : List Char → Option (Numeral × List Char)
  | '-' :: text => readUnsigned true text
  | text => readUnsigned false text

theorem readNumeral_length_lt {text rest : List Char} {numeral : Numeral}
    (h : readNumeral text = some (numeral, rest)) : rest.length < text.length := by
  unfold readNumeral at h
  split at h
  · have := readUnsigned_length_lt h
    simp only [List.length_cons]
    omega
  · exact readUnsigned_length_lt h

/-- Whether a numeral starts here. -/
def startsNumeral : List Char → Bool
  | [] => false
  | c :: _ => c == '-' || c.isDigit

/-! ## Integers -/

namespace Numeral

/-- The integer that a numeral stands for, if it stands for one. -/
def integer? (n : Numeral) : Option Int :=
  if n.fraction.isSome ∨ n.exponent.isSome then none
  else if n.negative then
    if 0 < decimalValue n.whole ∧ decimalValue n.whole ≤ Nat.pow 2 63 then
      some (-(decimalValue n.whole : Int))
    else none
  else if decimalValue n.whole ≤ maxWord then some (decimalValue n.whole) else none

/-! ## The range of double precision -/

end Numeral

/-- Puts digits behind a word as long as it does not run over: the word, and how many digits were
left out. -/
def appendDigits (word : Nat) : List Char → Nat × Nat
  | [] => (word, 0)
  | c :: digits =>
    if 10 * word + digitValue c ≤ maxWord then appendDigits (10 * word + digitValue c) digits
    else (word, digits.length + 1)

/-- The nearest number with at most 53 significant bits; of two the even one. -/
def roundTo53 (n : Nat) : Nat :=
  if n < Nat.pow 2 53 then n
  else
    let unit := Nat.pow 2 (n.log2 - 52)
    let quotient := n / unit
    if unit < 2 * (n % unit) ∨ (unit = 2 * (n % unit) ∧ quotient % 2 = 1) then (quotient + 1) * unit
    else quotient * unit

/-- The least number that double precision rounds to infinity. -/
def doubleOverflow : Nat := Nat.pow 2 1024 - Nat.pow 2 970

namespace Numeral

/-- The leading digits that fit in a word, and the power of ten that goes with them. -/
def significand (n : Numeral) : Nat × Int :=
  let fraction := n.fraction.getD []
  let (whole, droppedWhole) := appendDigits 0 n.whole
  let (word, droppedFraction) := appendDigits whole fraction
  (word, (droppedWhole : Int) + droppedFraction - fraction.length + n.exponent.getD 0)

/-- Whether the number is finite in double precision, with its significand and its power of ten
rounded before they are multiplied. -/
def inRange (n : Numeral) : Bool :=
  let (word, power) := n.significand
  word = 0 || power < 0 ||
    (power ≤ 308 && decide (roundTo53 word * roundTo53 (Nat.pow 10 power.toNat) < doubleOverflow))

end Numeral

end Record

end MessageFraming
