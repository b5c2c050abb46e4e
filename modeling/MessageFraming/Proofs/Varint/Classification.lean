import Mathlib.Algebra.BigOperators.Group.Finset.Basic
import Mathlib.Data.List.GetD
import MessageFraming.Proofs.Source.Ending
import MessageFraming.Proofs.Varint.Streams

/-!
# What becomes of any bytes at all

Every byte string in front of an end of input has one of five beginnings for a reader of varints:
nothing; a first byte with a clear high bit among the first ten, with or without a number that fits
64 bits; ten bytes without one; and fewer than ten bytes without one.

* `LastAt`: where the first byte with a clear high bit stands.
* `groupSum`: the number as the sum that the format is about. It is what the grammar means by
  `value` (`groupSum_eq_value`).
* `read_classifies`: what a reader answers in each of the five cases, and how many bytes it takes.
-/

namespace MessageFraming

namespace Varint

/-! ## Numbers as sums -/

/-- The groups of the first `count` bytes, each times its power of two. -/
def groupSum (bytes : Bytes) (count : Nat) : Nat :=
  ∑ j ∈ Finset.range count, (bytes.getD j 0).toNat % 128 * 2 ^ (7 * j)

/-- Induction on the groups, the last one first. -/
theorem groupSum_eq_value {bytes : Bytes} {count : Nat} (h : count ≤ bytes.length) :
    groupSum bytes count = value (bytes.take count) := by
  induction count with
  | zero => rfl
  | succ count ih =>
    have hlen : (bytes.take count).length = count := List.length_take_of_le (Nat.le_of_lt h)
    rw [groupSum, Finset.sum_range_succ, ← groupSum, ih (Nat.le_of_lt h),
      List.take_add_one, List.getElem?_eq_getElem h, Option.toList_some, value_concat, hlen,
      List.getD_eq_getElem _ _ h, Nat.mul_comm (2 ^ (7 * count))]

/-! ## The last byte -/

/-- Among the first ten bytes, `b` at position `i` is the first one whose high bit is clear. -/
structure LastAt (bytes : Bytes) (i : Nat) (b : UInt8) : Prop where
  lt : i < maxLength
  get : bytes[i]? = some b
  last : b < continues
  first : ∀ c ∈ bytes.take i, continues ≤ c

namespace LastAt

variable {bytes : Bytes} {i : Nat} {b : UInt8}

theorem take_succ (h : LastAt bytes i b) : bytes.take (i + 1) = bytes.take i ++ [b] := by
  rw [List.take_add_one, h.get, Option.toList_some]

theorem lt_length (h : LastAt bytes i b) : i < bytes.length :=
  (List.getElem?_eq_some_iff.mp h.get).1

theorem length_take (h : LastAt bytes i b) : (bytes.take i).length = i :=
  List.length_take_of_le (Nat.le_of_lt h.lt_length)

/-- The sum of the groups up to the last one is the value of these bytes. -/
theorem groupSum_eq (h : LastAt bytes i b) :
    groupSum bytes (i + 1) = value (bytes.take i ++ [b]) := by
  rw [groupSum_eq_value h.lt_length, h.take_succ]

/-- The first nine groups always fit, and a tenth one that is more than one bit never does. -/
theorem groupSum_lt_iff (h : LastAt bytes i b) :
    groupSum bytes (i + 1) < UInt64.size ↔ ¬ (i = 9 ∧ 1 < b) := by
  have hten : maxLength = 10 := rfl
  have hlt := h.lt
  rw [h.groupSum_eq]
  by_cases hnine : i = 9
  · have hfull : (bytes.take i).length + 1 = maxLength := by rw [h.length_take, hnine]; rfl
    rw [fits_iff_of_full hfull h.last]
    exact not_congr (and_iff_right hnine).symm
  · have hroom : (bytes.take i).length + (9 - i + 1) = maxLength := by
      rw [h.length_take]
      omega
    exact iff_of_true (fits_of_pos b hroom (by omega)) fun hlast => hnine hlast.1

/-- Where the last group is found, the sum decides between the number and an overflow. -/
theorem parse_eq (h : LastAt bytes i b) :
    parse bytes =
      if groupSum bytes (i + 1) < UInt64.size then
        (.ok (some (groupSum bytes (i + 1))), bytes.drop (i + 1))
      else (.error .varintOverflow, bytes.drop (i + 1)) := by
  have hcut : bytes = bytes.take i ++ b :: bytes.drop (i + 1) := by
    rw [List.append_cons, ← h.take_succ, List.take_append_drop]
  have hparse := parse_last h.first h.last (by rw [h.length_take]; exact h.lt) (bytes.drop (i + 1))
  rw [← hcut, ← h.groupSum_eq] at hparse
  exact hparse

end LastAt

/-- What parses as a number has a last byte. -/
theorem exists_lastAt_of_parse {bytes left : Bytes} {n : Nat}
    (h : parse bytes = (.ok (some n), left)) :
    ∃ i b, LastAt bytes i b ∧ n = groupSum bytes (i + 1) := by
  obtain ⟨form, hform, rfl, rfl⟩ := form_of_parse h
  obtain ⟨front, b, rfl, hfront, hb⟩ := complete_iff.mp hform.complete
  have hlen := hform.length_le
  rw [List.length_append, List.length_singleton] at hlen
  -- the last byte stands where the continuing ones end
  have hlast : LastAt (front ++ [b] ++ left) front.length b := by
    refine ⟨hlen, ?_, hb, ?_⟩
    · rw [List.append_assoc, List.getElem?_append_right (Nat.le_refl _), Nat.sub_self]
      rfl
    · rw [List.append_assoc, List.take_left]
      exact hfront
  refine ⟨front.length, b, hlast, ?_⟩
  rw [hlast.groupSum_eq, List.append_assoc, List.take_left]

/-! ## Reading -/

variable {σ : Type} [ByteSupply σ] [VisibleSupply σ]

open VisibleSupply

variable {s : σ} {bytes : Bytes} {how : Outcome IoError Unit} {behind : Source}

/-- Up to the last byte all is taken, and the number decides. -/
theorem read_of_lastAt {i : Nat} {b : UInt8} (h : Shows s bytes how behind)
    (hlast : LastAt bytes i b) :
    Shows (read s).2 (bytes.drop (i + 1)) how behind
      ∧ if i = 9 ∧ 1 < b then (read s).1 = .error .varintOverflow
        else groupSum bytes (i + 1) < UInt64.size
          ∧ ∃ v, (read s).1 = .ok (some v) ∧ v.toNat = groupSum bytes (i + 1) := by
  have hparse := hlast.parse_eq
  -- nine groups fill 63 bits, so only the tenth byte can be too much
  by_cases hover : i = 9 ∧ 1 < b
  · rw [if_neg fun hfit => hlast.groupSum_lt_iff.mp hfit hover] at hparse
    obtain ⟨next, hread, hnext⟩ := read_of_overflow h hparse
    rw [if_pos hover, hread]
    exact ⟨hnext, rfl⟩
  · have hfit := hlast.groupSum_lt_iff.mpr hover
    rw [if_pos hfit] at hparse
    obtain ⟨v, next, hread, hv, hnext⟩ := read_of_number h hparse
    rw [if_neg hover, hread]
    exact ⟨hnext, hfit, v, rfl, hv⟩

/-- Just the numbers are read that fit 64 bits and have their last byte among the first ten. -/
theorem read_number_iff (h : Shows s bytes how behind) (n : Nat) :
    (∃ v, (read s).1 = .ok (some v) ∧ v.toNat = n)
      ↔ n < UInt64.size ∧ ∃ i b, LastAt bytes i b ∧ n = groupSum bytes (i + 1) := by
  constructor
  · rintro ⟨v, hread, rfl⟩
    obtain ⟨left, hparse, -⟩ := parse_of_read h (Prod.ext hread rfl)
    exact ⟨v.toNat_lt, exists_lastAt_of_parse hparse⟩
  · rintro ⟨hfit, i, b, hlast, rfl⟩
    have hparse := hlast.parse_eq
    rw [if_pos hfit] at hparse
    obtain ⟨v, next, hread, hv, -⟩ := read_of_number h hparse
    exact ⟨v, congrArg Prod.fst hread, hv⟩

/-- **A reader classifies every byte string.** In front of an end of input it answers none if there
is no byte. Up to a first byte with a clear high bit, if that is among the first ten, it takes the
bytes and answers their number, or an overflow if the tenth byte has more than the one bit that is
left. Ten bytes without such a one are an overflow, and fewer are a truncated prefix. So just the
numbers below 2^64 of at most ten bytes are read. -/
theorem read_classifies (h : Shows s bytes (.ok ()) behind) :
    (bytes = [] → read s = (.ok none, ofSource behind))
      ∧ (∀ i b, LastAt bytes i b →
        Shows (read s).2 (bytes.drop (i + 1)) (.ok ()) behind
          ∧ if i = 9 ∧ 1 < b then (read s).1 = .error .varintOverflow
            else groupSum bytes (i + 1) < UInt64.size
              ∧ ∃ v, (read s).1 = .ok (some v) ∧ v.toNat = groupSum bytes (i + 1))
      ∧ (bytes ≠ [] → bytes.length < maxLength → (∀ c ∈ bytes, continues ≤ c) →
        read s = (.error .truncatedPrefix, ofSource behind))
      ∧ (maxLength ≤ bytes.length → (∀ c ∈ bytes.take maxLength, continues ≤ c) →
        (read s).1 = .error .varintOverflow
          ∧ Shows (read s).2 (bytes.drop maxLength) (.ok ()) behind)
      ∧ ∀ n, (∃ v, (read s).1 = .ok (some v) ∧ v.toNat = n)
        ↔ n < UInt64.size ∧ ∃ i b, LastAt bytes i b ∧ n = groupSum bytes (i + 1) := by
  refine ⟨?_, fun i b => read_of_lastAt h, fun hne hlen hall => ?_, fun hlen hall => ?_,
    read_number_iff h⟩
  · rintro rfl
    exact read_of_end h (Or.inl rfl) parse_nil
  · exact read_of_end h (Or.inr rfl) (parse_truncated hall hne hlen)
  · have hparse := parse_overflow hall (List.length_take_of_le hlen) (bytes.drop maxLength)
    rw [List.take_append_drop] at hparse
    obtain ⟨next, hread, hnext⟩ := read_of_overflow h hparse
    rw [hread]
    exact ⟨rfl, hnext⟩

/-- The number 300, interrupted, with a byte behind it that is not part of it, and others that come
only after an end of input. -/
def interruptedSource : Source :=
  [.data [0xac], .fail (.plain .interrupted "signal"), .data [2, 7], .endOfInput, .data [9]]

theorem read_classifies_interruptedSource :
    interruptedSource.Brings [0xac, 2, 7] .endOfInput
      ∧ LastAt [0xac, 2, 7] 1 2
      ∧ (∃ v, (read interruptedSource).1 = .ok (some v) ∧ v.toNat = 300)
      ∧ ∃ behind, Shows (read interruptedSource).2 [7] (.ok ()) behind := by
  have hbrings : interruptedSource.Brings [0xac, 2, 7] .endOfInput :=
    .data (.interrupted rfl (.data .ended))
  have hlast : LastAt [0xac, 2, 7] 1 2 :=
    ⟨by decide, rfl, by decide, List.forall_mem_singleton.mpr (by decide)⟩
  have hsum : groupSum [0xac, 2, 7] 2 = 300 := by decide +kernel
  obtain ⟨behind, hshows⟩ := hbrings.shows
  obtain ⟨hleft, hread⟩ := (read_classifies hshows).2.1 1 2 hlast
  rw [if_neg (by decide), hsum] at hread
  exact ⟨hbrings, hlast, hread.2, behind, hleft⟩

end Varint

end MessageFraming
