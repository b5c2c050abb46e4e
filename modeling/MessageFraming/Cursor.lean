import MessageFraming.Bytes
import MessageFraming.Outcome
import MessageFraming.Frame.Error

/-!
# Cursors

A cursor is a state machine that hands out frames: one read at a time gives a frame, the end of the
stream, or an error. Nothing is promised about later reads. A cursor may go on after an error, or
even after an end.

- `Cursor` is the bare interface; readers of a wire format, frames in memory and compositions of
  cursors all have it.
- `FiniteCursor` adds a budget that every frame draws on. It bounds how many frames can come, and
  so lets `drain` be a total function.
- `Frames` is the iterator over what is left. It stops at the first end or error.
-/

namespace MessageFraming

/-- What one read gives; no frame means the end of the stream. -/
abbrev FrameResult := Outcome FrameError (Option Bytes)

class Cursor (σ : Type) where
  read : σ → FrameResult × σ

/-- A cursor each of whose frames costs something. -/
class FiniteCursor (σ : Type) extends Cursor σ where
  budget : σ → Nat
  budget_lt : ∀ {s s' : σ} {frame : Bytes}, read s = (.ok (some frame), s') → budget s' < budget s

namespace Cursor

/-- The loop of `drain`, with the frames so far newest first. -/
def drainOnto {σ : Type} [FiniteCursor σ] (newestFirst : List Bytes) (s : σ) :
    Outcome FrameError (List Bytes) × σ :=
  match _h : read s with
  | (.ok (some frame), rest) => drainOnto (frame :: newestFirst) rest
  | (.ok none, rest) => (.ok newestFirst.reverse, rest)
  | (.error e, rest) => (.error e, rest)
  | (.crash message, rest) => (.crash message, rest)
termination_by FiniteCursor.budget s
decreasing_by exact FiniteCursor.budget_lt _h

/-- Every frame up to the end of the stream. An error takes the frames in front of it with it. -/
def drain {σ : Type} [FiniteCursor σ] (s : σ) : Outcome FrameError (List Bytes) × σ :=
  drainOnto [] s

end Cursor

/-- Iterates over the frames of a cursor until its first end or error. -/
structure Frames (σ : Type) where
  cursor : σ
  done : Bool

namespace Frames

def ofCursor {σ : Type} (cursor : σ) : Frames σ := ⟨cursor, false⟩

/-- The next frame or the error that ends the iteration; none from then on, without a read. -/
def next {σ : Type} [Cursor σ] (it : Frames σ) : FrameResult × Frames σ :=
  if it.done then (.ok none, it)
  else
    match Cursor.read it.cursor with
    | (.ok (some frame), rest) => (.ok (some frame), ⟨rest, false⟩)
    | (.ok none, rest) => (.ok none, ⟨rest, true⟩)
    | (.error e, rest) => (.error e, ⟨rest, true⟩)
    | (.crash message, rest) => (.crash message, ⟨rest, false⟩)

end Frames

end MessageFraming
