import MessageFraming.Frame.Format

/-!
# Producers that share a writer

Several producers write lists of payloads through one shared writer, each frame under the lock. A
write is not one step here. A producer takes the lock, the sink takes the bytes of the frame part by
part, and the producer lets go of the lock again; between any two of these steps the others may take
theirs. `Producers.Step` is one step of one producer, and `Producers.Reachable` is what
interleavings of them come to.

The sink never fails, but it may take as little as one byte at a time.
-/

namespace MessageFraming

/-- A frame on its way to the sink. -/
structure FrameInFlight where
  /-- What is still to be written in full: the head and the payload, or less. -/
  parts : List Bytes
  /-- Length of the whole frame. -/
  size : Nat
deriving Repr, DecidableEq

structure Producer where
  /-- Payloads whose write has not begun. -/
  payloads : List Bytes
  /-- The frame that it writes while it holds the lock. -/
  frame : Option FrameInFlight
  /-- What its finished writes took on the wire. -/
  total : Nat
deriving Repr, DecidableEq

namespace Producer

def ofPayloads (payloads : List Bytes) : Producer := ⟨payloads, none, 0⟩

/-- Whether all its payloads are written. -/
def isDone (p : Producer) : Bool := p.payloads.isEmpty && p.frame.isNone

end Producer

/-- The producers of a writer, with all that the lock guards. -/
structure Producers (f : WireFormat) where
  producers : List Producer
  /-- Who holds the lock. -/
  holder : Option Nat
  /-- State of the writer behind the lock. -/
  state : f.State
  /-- What the sink has taken. -/
  wire : Bytes

namespace Producers

variable {f : WireFormat}

/-- Nobody has begun; producer `i` has the `i`-th list to write. -/
def start (f : WireFormat) (lists : List (List Bytes)) : Producers f :=
  ⟨lists.map Producer.ofPayloads, none, f.start, []⟩

/-- Producer `i` goes on as `p`. -/
def set (i : Nat) (p : Producer) (s : Producers f) : Producers f :=
  { s with producers := s.producers.set i p }

/-- Whether every producer has written all its payloads. -/
def isDone (s : Producers f) : Bool := s.producers.all Producer.isDone

/-- What all finished writes took on the wire. -/
def total (s : Producers f) : Nat := s.producers.foldr (fun p n => p.total + n) 0

inductive Step : Producers f → Producers f → Prop where
  /-- A producer takes the free lock for its next payload. -/
  | take {s : Producers f} {i : Nat} {payload : Bytes} {payloads : List Bytes} {total : Nat}
      (hfree : s.holder = none) (hp : s.producers[i]? = some ⟨payload :: payloads, none, total⟩) :
      Step s
        { s.set i ⟨payloads,
            some ⟨[f.head s.state payload, payload], (f.frame s.state payload).length⟩, total⟩ with
          holder := some i
          state := f.next s.state }
  /-- The sink takes `n` bytes of what it is offered. -/
  | write {s : Producers f} {i n size total : Nat} {part : Bytes} {parts payloads : List Bytes}
      (hp : s.producers[i]? = some ⟨payloads, some ⟨part :: parts, size⟩, total⟩)
      (hpos : 0 < n) (hle : n ≤ part.length) :
      Step s
        { s.set i ⟨payloads, some ⟨part.drop n :: parts, size⟩, total⟩ with
          wire := s.wire ++ part.take n }
  /-- A part is written in full. -/
  | advance {s : Producers f} {i size total : Nat} {parts payloads : List Bytes}
      (hp : s.producers[i]? = some ⟨payloads, some ⟨[] :: parts, size⟩, total⟩) :
      Step s (s.set i ⟨payloads, some ⟨parts, size⟩, total⟩)
  /-- The frame is written, and the producer lets go of the lock. -/
  | release {s : Producers f} {i size total : Nat} {payloads : List Bytes}
      (hp : s.producers[i]? = some ⟨payloads, some ⟨[], size⟩, total⟩) :
      Step s { s.set i ⟨payloads, none, total + size⟩ with holder := none }

/-- The states that interleavings reach from lists of payloads. -/
inductive Reachable (f : WireFormat) (lists : List (List Bytes)) : Producers f → Prop where
  | start : Reachable f lists (start f lists)
  | step {s s' : Producers f} : Reachable f lists s → Step s s' → Reachable f lists s'

end Producers

end MessageFraming
