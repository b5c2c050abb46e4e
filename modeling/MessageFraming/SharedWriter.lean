import MessageFraming.Frame.Writer

/-!
# Shared frame writers

A shared writer lets several producers write frames through one lock, one frame for each time it is
taken, so that frames do not mix on the wire.

A crash while the lock is held poisons the writer: the frame may be torn, and nothing is written
behind it any more. The owner's exclusive access takes no lock. A crash there poisons nothing, but
a poisoned writer refuses it all the same.
-/

namespace MessageFraming

/-- How a caller reaches a shared writer. -/
inductive Access where
  /-- By sharing it, through the lock. -/
  | shared
  /-- By a reference to it that is a frame writer itself, through the lock. -/
  | reference
  /-- By owning it, past the lock. -/
  | exclusive
deriving Repr, DecidableEq

def Access.takesLock : Access → Bool
  | shared | reference => true
  | exclusive => false

structure SharedWriter (ω : Type) where
  writer : ω
  poisoned : Bool
deriving Repr, DecidableEq

namespace SharedWriter

variable {ω α : Type}

def ofWriter (writer : ω) : SharedWriter ω := ⟨writer, false⟩

/-- Runs `action` on the writer behind the lock. -/
def access (via : Access) (action : ω → Reply ω FrameError α) (w : SharedWriter ω) :
    Reply (SharedWriter ω) FrameError α :=
  if w.poisoned then ⟨.error .poisoned, w, []⟩
  else
    match action w.writer with
    | ⟨.crash message, writer, calls⟩ => ⟨.crash message, ⟨writer, via.takesLock⟩, calls⟩
    | ⟨outcome, writer, calls⟩ => ⟨outcome, ⟨writer, false⟩, calls⟩

variable [FrameWriter ω]

def writeFrame (via : Access) (payload : Bytes) (w : SharedWriter ω) :
    Reply (SharedWriter ω) FrameError Nat :=
  w.access via (FrameWriter.writeFrame payload)

/-- Writes payloads in order. The lock is free between them. -/
def writeFrames (via : Access) (payloads : List Bytes) (w : SharedWriter ω) :
    Reply (SharedWriter ω) FrameError Nat :=
  FrameWriter.writeEach (writeFrame via) payloads w

def flush (via : Access) (w : SharedWriter ω) : Reply (SharedWriter ω) FrameError Unit :=
  w.access via FrameWriter.flush

/-- Ends the sharing. A poisoned writer is not given back. -/
def release (w : SharedWriter ω) : Except FrameError ω :=
  if w.poisoned then .error .poisoned else .ok w.writer

end SharedWriter

end MessageFraming
