import MessageFraming.Bytes
import MessageFraming.Frame.Error

/-!
# Wire formats

In every format here a frame is a head and then the payload as it is. The head may depend on the
payload (a length prefix) or on the frames before (a separator), so a format is a small state
machine over the payloads written so far. `WireFormat.encode` is the wire that a list of payloads
stands for.
-/

namespace MessageFraming

structure WireFormat where
  /-- What has to be remembered of the frames before. -/
  State : Type
  start : State
  /-- The bytes in front of a payload. -/
  head : State → Bytes → Bytes
  /-- The state behind a frame. -/
  next : State → State
  /-- What an error calls the writing of a head. -/
  headStep : FrameError.Step

namespace WireFormat

/-- One frame as it stands on the wire. -/
def frame (f : WireFormat) (state : f.State) (payload : Bytes) : Bytes :=
  f.head state payload ++ payload

/-- The frames of `payloads` behind others that left `state`. -/
def encodeFrom (f : WireFormat) (state : f.State) : List Bytes → Bytes
  | [] => []
  | payload :: payloads => f.frame state payload ++ f.encodeFrom (f.next state) payloads

/-- The frames of `payloads`, one behind the other. -/
def encode (f : WireFormat) (payloads : List Bytes) : Bytes := f.encodeFrom f.start payloads

/-- The state behind `payloads`. -/
def stateAfter (f : WireFormat) (state : f.State) : List Bytes → f.State
  | [] => state
  | _ :: payloads => f.stateAfter (f.next state) payloads

/-- The payload that comes last moves the state that the others have led to. -/
theorem stateAfter_concat (f : WireFormat) (state : f.State) (payloads : List Bytes)
    (payload : Bytes) :
    f.stateAfter state (payloads ++ [payload]) = f.next (f.stateAfter state payloads) := by
  induction payloads generalizing state with
  | nil => rfl
  | cons first payloads ih => exact ih (f.next state)

/-- A wire can be cut between any two frames. -/
theorem encodeFrom_append (f : WireFormat) (state : f.State) (before after : List Bytes) :
    f.encodeFrom state (before ++ after)
      = f.encodeFrom state before ++ f.encodeFrom (f.stateAfter state before) after := by
  induction before generalizing state with
  | nil => rfl
  | cons payload before ih => simp [encodeFrom, stateAfter, ih]

end WireFormat

end MessageFraming
