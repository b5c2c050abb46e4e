import Mathlib.Order.Bounds.Defs
import MessageFraming.Proofs.Source.Ending
import MessageFraming.Proofs.Varint.Streams

/-!
# Varints read back

The encoder writes as many groups as the number has, and a reader takes just these bytes and answers
the number, in any pieces, behind any interruptions and in front of anything. It reads the same
number off longer prefixes too, but not off shorter ones, nor off others of the same length.

* `isLeast_length_encode`: how many bytes the encoder writes.
* `read_of_encode`: they are read back.
* `exists_taken_of_read`: whatever a number is read off is no shorter.
* `encode_unique_shortest`: all of it together.
-/

namespace MessageFraming

namespace Varint

/-- Every number has at least one group, and the encoder writes no more than it needs. -/
theorem isLeast_length_encode (v : UInt64) :
    IsLeast {k | 1 ≤ k ∧ v.toNat < 2 ^ (7 * k)} (encode v).length := by
  refine ⟨⟨List.length_pos_iff.mpr (complete_encode v).ne_nil, ?_⟩, fun k hk => ?_⟩
  · rw [← value_encode v]
    exact value_lt (encode v)
  · exact length_encode_le_of_lt hk.1 hk.2

variable {σ : Type} [ByteSupply σ] [VisibleSupply σ]

variable {v : UInt64} {s next : σ} {bytes rest : Bytes} {how : Outcome IoError Unit}
  {behind : Source}

/-- An encoding reads as its number, whatever is behind it. -/
theorem read_of_encode (h : Shows s (encode v ++ rest) how behind) :
    ∃ next, read s = (.ok (some v), next) ∧ Shows next rest how behind := by
  have hparse := (form_encode v).parse rest
  rw [value_encode] at hparse
  obtain ⟨v', next, hread, hv, hnext⟩ := read_of_number h hparse
  cases UInt64.toNat_inj.mp hv
  exact ⟨next, hread, hnext⟩

/-- Of the bytes that a number is read off the encoder writes no more, and it writes them if it
writes as many. -/
theorem exists_taken_of_read (h : Shows s bytes how behind)
    (hread : read s = (.ok (some v), next)) :
    ∃ taken left, bytes = taken ++ left ∧ Shows next left how behind
      ∧ (encode v).length ≤ taken.length
      ∧ (taken.length = (encode v).length → taken = encode v) := by
  obtain ⟨left, hparse, hnext⟩ := parse_of_read h hread
  obtain ⟨form, hform, hvalue, rfl⟩ := form_of_parse hparse
  refine ⟨form, left, rfl, hnext, length_encode_le_of_value hform.complete hvalue, fun hlen => ?_⟩
  refine hform.complete.eq_of_value_eq (complete_encode v) hlen ?_
  rw [hvalue, value_encode]

/-- **The encoding is the one shortest form that reads back.** It has the fewest groups in which
the number fits, and never more than ten. A reader takes just these bytes, whatever stands behind
them and however they come, and answers the number. Off fewer bytes it never reads the number, and
off as many only if they are the encoding. -/
theorem encode_unique_shortest (σ : Type) [ByteSupply σ] [VisibleSupply σ] (v : UInt64) :
    IsLeast {k | 1 ≤ k ∧ v.toNat < 2 ^ (7 * k)} (encode v).length
      ∧ (encode v).length ≤ maxLength
      ∧ (∀ (s : σ) (rest : Bytes) (how : Outcome IoError Unit) (behind : Source),
        Shows s (encode v ++ rest) how behind →
          ∃ next, read s = (.ok (some v), next) ∧ Shows next rest how behind)
      ∧ ∀ (s next : σ) (bytes : Bytes) (how : Outcome IoError Unit) (behind : Source),
        Shows s bytes how behind → read s = (.ok (some v), next) →
          ∃ taken left, bytes = taken ++ left ∧ Shows next left how behind
            ∧ (encode v).length ≤ taken.length
            ∧ (taken.length = (encode v).length → taken = encode v) :=
  ⟨isLeast_length_encode v, length_encode_le v, fun _ _ _ _ => read_of_encode,
    fun _ _ _ _ _ => exists_taken_of_read⟩

/-- The number 300 as it is encoded, interrupted once, with a byte behind it and then a failure. -/
def plainSource : Source :=
  [.data [0xac], .fail (.plain .interrupted "signal"), .data [2, 7],
    .fail (.plain .timedOut "late")]

/-- The same number with three groups that it does not have. -/
def paddedSource : Source := [.data [0xac, 0x82], .data [0x80, 0x80, 0], .endOfInput, .data [9]]

theorem encode_unique_shortest_threeHundred :
    encode 300 = [0xac, 2]
      ∧ plainSource.Brings [0xac, 2, 7] (.failure (.plain .timedOut "late"))
      ∧ (∃ next, read plainSource = (.ok (some 300), next)
        ∧ ∃ behind, Shows next [7] (.error (.plain .timedOut "late")) behind)
      ∧ paddedSource.Brings [0xac, 0x82, 0x80, 0x80, 0] .endOfInput
      ∧ (read paddedSource).1 = .ok (some 300)
      ∧ ∃ taken left : Bytes, [0xac, 0x82, 0x80, 0x80, 0] = taken ++ left ∧ 2 ≤ taken.length
        ∧ (taken.length = 2 → taken = [0xac, 2]) := by
  have hencode : encode 300 = [0xac, 2] := by decide +kernel
  have hplain : plainSource.Brings [0xac, 2, 7] (.failure (.plain .timedOut "late")) :=
    .data (.interrupted rfl (.data (.failed rfl)))
  have hpadded : paddedSource.Brings [0xac, 0x82, 0x80, 0x80, 0] .endOfInput :=
    .data (.data .ended)
  have hvalue : (read paddedSource).1 = .ok (some 300) := by decide +kernel
  obtain ⟨-, -, hback, hshortest⟩ := encode_unique_shortest Source 300
  rw [hencode] at hback hshortest
  obtain ⟨behind, hshows⟩ := hplain.shows
  obtain ⟨next, hread, hnext⟩ := hback plainSource [7] _ behind hshows
  obtain ⟨behind', hshows'⟩ := hpadded.shows
  obtain ⟨taken, left, hcut, -, hle, hsame⟩ :=
    hshortest paddedSource _ _ _ behind' hshows' (Prod.ext hvalue rfl)
  exact ⟨hencode, hplain, ⟨next, hread, behind, hnext⟩, hpadded, hvalue, taken, left, hcut, hle,
    hsame⟩

end Varint

end MessageFraming
