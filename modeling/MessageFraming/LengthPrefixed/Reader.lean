import MessageFraming.Cursor
import MessageFraming.Varint
import MessageFraming.Source.Buffered

/-!
# Reading length-prefixed frames

A frame is the varint of its length and then its payload. The declared length is checked against the
limit first; after that the reader only ever holds bytes that have arrived, so a prefix that
declares more than the stream holds costs no more than the bytes present and fails as truncated.
-/

namespace MessageFraming

structure LengthPrefixed.Reader where
  input : BufferedSource
  /-- Longest accepted payload. -/
  limit : Nat
  /-- Most payload bytes held at once so far. -/
  peak : Nat

namespace LengthPrefixed.Reader

def ofSource (source : Source) (limit : Nat) : Reader := ⟨.ofSource source, limit, 0⟩

/-- Whether the room for payloads still has its initial size: it grows once a payload needs more,
and never shrinks. -/
def hasInitialRoom (r : Reader) : Bool := r.peak ≤ initialPayloadRoom

/-- Reads the payload behind a prefix that declared `length` bytes. -/
def readPayload (r : Reader) (length : Nat) : FrameResult × Reader :=
  let g := gather length r.input
  let after : Reader := { r with input := g.supply, peak := max r.peak g.bytes.length }
  match g.outcome with
  | .ok () =>
    if g.bytes.length < length then (.error (.truncated length), after)
    else (.ok (some g.bytes), after)
  | .error e => (.error (.io .readPayload e), after)
  | .crash message => (.crash message, after)

def read (r : Reader) : FrameResult × Reader :=
  match Varint.read r.input with
  | (.ok none, input) => (.ok none, { r with input })
  | (.ok (some declared), input) =>
    if r.limit < declared.toNat then
      (.error (.frameTooLarge declared.toNat r.limit), { r with input })
    else ({ r with input } : Reader).readPayload declared.toNat
  | (.error e, input) => (.error e, { r with input })
  | (.crash message, input) => (.crash message, { r with input })

/-- A payload leaves no more than the prefix left. -/
theorem readPayload_remaining_le (r : Reader) (length : Nat) :
    (r.readPayload length).2.input.remaining ≤ r.input.remaining := by
  have hcost := gather_remaining length r.input
  have hle : (gather length r.input).supply.remaining ≤ r.input.remaining :=
    Nat.le_trans (Nat.le_add_left _ _) (Nat.le_of_eq hcost)
  unfold readPayload
  simp only
  split
  · split <;> exact hle
  · exact hle
  · exact hle

/-- A frame takes at least the byte of its prefix. -/
theorem read_remaining_lt {r r' : Reader} {frame : Bytes} (h : r.read = (.ok (some frame), r')) :
    r'.input.remaining < r.input.remaining := by
  unfold read at h
  split at h
  · simp at h
  · rename_i declared input hprefix
    have hlt : input.remaining < r.input.remaining := Varint.read_remaining_lt hprefix
    split at h
    · simp at h
    · have hle := readPayload_remaining_le { r with input } declared.toNat
      rw [h] at hle
      exact Nat.lt_of_le_of_lt hle hlt
  · simp at h
  · simp at h

instance : FiniteCursor Reader where
  read := read
  budget r := r.input.remaining
  budget_lt := read_remaining_lt

end LengthPrefixed.Reader

end MessageFraming
