import MessageFraming.Bytes

/-!
# Decode counters

What a decoding run has seen: chunks, frames, raw bytes with delimiters, and payload bytes. Counters
of separate chunks add up in any order.

A count is one 64-bit word, and sums that do not fit a word wrap around. A build that checks its
arithmetic stops at such a sum instead; below the size of a word there is no difference.
-/

namespace MessageFraming

/-- A count is read as the number that it is. -/
instance Counters.numberOfWord : CoeOut UInt64 Nat := ⟨UInt64.toNat⟩

/-- A number is counted in one word, modulo its size. -/
instance Counters.wordOfNumber : CoeTail Nat UInt64 := ⟨UInt64.ofNat⟩

structure Counters where
  chunks : UInt64
  frames : UInt64
  /-- Raw bytes, delimiters included. -/
  rawBytes : UInt64
  /-- Bytes of the decoded frames. -/
  payloadBytes : UInt64
deriving Repr, DecidableEq

namespace Counters

def zero : Counters := ⟨0, 0, 0, 0⟩

/-- Counts one more chunk of `rawLength` bytes that held `frames`. -/
def addChunk (rawLength : Nat) (frames : List Bytes) (c : Counters) : Counters :=
  ⟨c.chunks + 1, c.frames + .ofNat frames.length, c.rawBytes + .ofNat rawLength,
    c.payloadBytes + .ofNat frames.flatten.length⟩

def add (c d : Counters) : Counters :=
  ⟨c.chunks + d.chunks, c.frames + d.frames, c.rawBytes + d.rawBytes,
    c.payloadBytes + d.payloadBytes⟩

instance : Add Counters := ⟨add⟩

/-- Bytes spent on delimiters and on empty lines; zero where payload outweighs raw bytes. -/
def overhead (c : Counters) : UInt64 :=
  if c.payloadBytes ≤ c.rawBytes then c.rawBytes - c.payloadBytes else 0

/-- The overhead as a number: the difference, cut off at zero. -/
theorem toNat_overhead (c : Counters) :
    c.overhead.toNat = c.rawBytes.toNat - c.payloadBytes.toNat := by
  unfold overhead
  split
  · next hle => exact UInt64.toNat_sub_of_le _ _ hle
  · next hgt =>
    rw [UInt64.le_iff_toNat_le] at hgt
    show 0 = _
    omega

end Counters

end MessageFraming
