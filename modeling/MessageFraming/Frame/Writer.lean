import MessageFraming.Sink
import MessageFraming.Frame.Error

/-!
# Frame writers

A frame writer puts payloads on the wire in one format. The value of a write is the number of bytes
that the frame took there, framing included.
-/

namespace MessageFraming

class FrameWriter (ω : Type) where
  writeFrame : Bytes → ω → Reply ω FrameError Nat
  flush : ω → Reply ω FrameError Unit

namespace FrameWriter

variable {ω : Type}

/-- Writes payloads in order with `write` and adds up what they took. The first failure is the last
write. -/
def writeEach (write : Bytes → ω → Reply ω FrameError Nat) : List Bytes → ω → Reply ω FrameError Nat
  | [], w => .pure 0 w
  | payload :: payloads, w =>
    (write payload w).bind fun count w =>
      (writeEach write payloads w).map fun total => count + total

/-- Writes payloads in order; the value is the length of all of them on the wire. -/
def writeFrames [FrameWriter ω] (payloads : List Bytes) (w : ω) : Reply ω FrameError Nat :=
  writeEach writeFrame payloads w

end FrameWriter

/-- A step of a frame writer that is done by its sink. -/
def Reply.atStep {σ α : Type} (step : FrameError.Step) (r : Reply σ IoError α) :
    Reply σ FrameError α :=
  r.mapError (.io step)

end MessageFraming
