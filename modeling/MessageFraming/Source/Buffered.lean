import MessageFraming.Units
import MessageFraming.Source

/-!
# Buffered sources

A buffered source reads ahead in windows of `sourceWindow` bytes and hands out bytes from its buffer
only. It reads again no sooner than the buffer is empty, so a failure or an end of input in the
script is seen after all bytes in front of it, and one fill never spans two events.
-/

namespace MessageFraming

structure BufferedSource where
  buffer : Bytes
  source : Source
deriving Repr, DecidableEq

namespace BufferedSource

def ofSource (source : Source) : BufferedSource := ⟨[], source⟩

/-- Bytes read ahead and bytes still in the source. -/
def remaining (s : BufferedSource) : Nat := s.buffer.length + s.source.left

/-- Refills an empty buffer, and shows the bytes at hand: none only at the end of input. -/
def fill (s : BufferedSource) : Outcome IoError Bytes × BufferedSource :=
  if s.buffer.isEmpty then
    match s.source.pull sourceWindow with
    | (.ok bytes, rest) => (.ok bytes, ⟨bytes, rest⟩)
    | (.error e, rest) => (.error e, ⟨[], rest⟩)
    | (.crash message, rest) => (.crash message, ⟨[], rest⟩)
  else (.ok s.buffer, s)

/-- Drops bytes that the caller has taken. -/
def consume (n : Nat) (s : BufferedSource) : BufferedSource := { s with buffer := s.buffer.drop n }

def pull (n : Nat) (s : BufferedSource) : Outcome IoError Bytes × BufferedSource :=
  match s.fill with
  | (.ok bytes, filled) => (.ok (bytes.take n), filled.consume n)
  | (.error e, filled) => (.error e, filled)
  | (.crash message, filled) => (.crash message, filled)

/-- A fill moves bytes from the source to the buffer and loses none. -/
theorem fill_remaining (s : BufferedSource) : s.fill.2.remaining = s.remaining := by
  unfold fill
  split
  · rename_i hempty
    have hcost := Source.pull_left sourceWindow s.source
    have hbuffer := List.isEmpty_iff.mp hempty
    split <;> rename_i h <;> simp only [h, Outcome.delivered] at hcost <;>
      simp only [remaining, hbuffer, List.length_nil] <;> omega
  · rfl

/-- What a fill shows is what the buffer holds. -/
theorem fill_buffer {s filled : BufferedSource} {bytes : Bytes} (h : s.fill = (.ok bytes, filled)) :
    filled.buffer = bytes := by
  unfold fill at h
  split at h
  · split at h <;> simp only [Prod.mk.injEq, Outcome.ok.injEq, reduceCtorEq, false_and] at h
    obtain ⟨rfl, rfl⟩ := h
    rfl
  · simp only [Prod.mk.injEq, Outcome.ok.injEq] at h
    obtain ⟨rfl, rfl⟩ := h
    rfl

/-- What remains is what a fill shows, and what the source has behind it. -/
theorem remaining_of_fill {s filled : BufferedSource} {bytes : Bytes}
    (h : s.fill = (.ok bytes, filled)) : s.remaining = bytes.length + filled.source.left := by
  have hcost := s.fill_remaining
  rw [h, remaining, fill_buffer h] at hcost
  exact hcost.symm

/-- Whoever takes all that a fill shows leaves less behind. -/
theorem remaining_taken_lt {s filled : BufferedSource} {b : UInt8} {bs : Bytes}
    (h : s.fill = (.ok (b :: bs), filled)) :
    ({ filled with buffer := [] } : BufferedSource).remaining < s.remaining := by
  rw [remaining_of_fill h, List.length_cons]
  show 0 + filled.source.left < _
  omega

/-- A pull takes from what remains just what it delivers. -/
theorem pull_remaining (n : Nat) (s : BufferedSource) :
    (s.pull n).2.remaining + (s.pull n).1.delivered = s.remaining := by
  have hcost := s.fill_remaining
  unfold pull
  split <;> rename_i h <;> simp only [h] at hcost
  · have hbuffer := fill_buffer h
    simp only [remaining, consume, Outcome.delivered, List.length_drop, List.length_take, hbuffer]
      at hcost ⊢
    omega
  · simpa [Outcome.delivered] using hcost
  · simpa [Outcome.delivered] using hcost

end BufferedSource

instance : ByteSupply BufferedSource where
  pull := BufferedSource.pull
  remaining := BufferedSource.remaining
  pull_remaining := BufferedSource.pull_remaining

end MessageFraming
