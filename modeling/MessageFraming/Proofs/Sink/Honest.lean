import MessageFraming.Sink.Memory
import MessageFraming.Sink.Scripted

/-!
# Sinks that do as they say

A sink may take any front of what it is offered, or nothing of it, and may fail at any call and in
any way. All that is asked of it here is that it says how much it took: a write that returns a
number has put that many of the bytes it was offered behind those the sink holds, and nothing else
adds a byte or takes one away.

* `HonestSink`: such sinks, with the bytes they hold.
* `HonestClosable`: such sinks that can be closed. Closing one changes none of its bytes, and
  nothing but its close calls the close of a device at the bottom.
* `Operation`: what can be done to a sink from outside. After any of it, in any order and whatever
  failed, the sink holds the bytes it reported as accepted (`Operation.data_after`).
-/

namespace MessageFraming

/-- How many bytes a write has taken: none, unless it returns and says so. -/
def Outcome.taken : Outcome IoError Nat → Nat
  | .ok count => count
  | _ => 0

class HonestSink (σ : Type) [ByteSink σ] where
  /-- The bytes that the sink has taken. -/
  data : σ → Bytes
  write_data : ∀ (bytes : Bytes) (s : σ), data (ByteSink.write bytes s).state
    = data s ++ bytes.take (ByteSink.write bytes s).outcome.taken
  flush_data : ∀ s : σ, data (ByteSink.flush s).state = data s

/-- What a write has taken stands behind what was on the sink. -/
theorem HonestSink.data_of_write {σ : Type} [ByteSink σ] [HonestSink σ] {bytes : Bytes} {s s' : σ}
    {outcome : Outcome IoError Nat} {calls : List Call}
    (h : ByteSink.write bytes s = ⟨outcome, s', calls⟩) :
    data s' = data s ++ bytes.take outcome.taken := by
  have hdata := write_data bytes s
  rwa [h] at hdata

/-- Whether a close reached a device at the bottom. -/
def Call.isClose : Call → Bool
  | .close _ _ => true
  | _ => false

class HonestClosable (σ : Type) [ByteSink σ] [Closable σ] extends HonestSink σ where
  close_data : ∀ s : σ, data (Closable.close s).state = data s
  write_calls : ∀ (bytes : Bytes) (s : σ), ∀ call ∈ (ByteSink.write bytes s).calls, ¬ call.isClose
  flush_calls : ∀ s : σ, ∀ call ∈ (ByteSink.flush s).calls, ¬ call.isClose

/-! ## Sinks at the bottom -/

instance : HonestClosable MemorySink where
  data := MemorySink.data
  write_data bytes s := congrArg (s.data ++ ·) List.take_length.symm
  flush_data _ := rfl
  close_data _ := rfl
  write_calls _ _ _ hmem := by cases hmem
  flush_calls _ _ hmem := by cases hmem

namespace ScriptedSink

/-- Whatever rule comes next, a write adds what it says it took. -/
theorem write_honest (bytes : Bytes) (s : ScriptedSink) :
    (s.write bytes).state.data = s.data ++ bytes.take (s.write bytes).outcome.taken
      ∧ ∀ call ∈ (s.write bytes).calls, ¬ call.isClose := by
  have hnone : s.data = s.data ++ bytes.take 0 := (List.append_nil _).symm
  -- a rule may take less than it is offered
  have htake : ∀ n, bytes.take n = bytes.take (bytes.take n).length := by
    intro n
    rw [List.length_take, ← List.take_eq_take_min]
  unfold write
  split
  · exact ⟨hnone, by simp [Call.isClose]⟩
  · split
    · exact ⟨congrArg (s.data ++ ·) (htake _), by simp [take, Call.isClose]⟩
    · exact ⟨congrArg (s.data ++ ·) (htake _), by simp [take, Call.isClose]⟩
    · exact ⟨hnone, by simp [Call.isClose]⟩
    · exact ⟨hnone, by simp [Call.isClose]⟩

instance : HonestClosable ScriptedSink where
  data := ScriptedSink.data
  write_data bytes s := (s.write_honest bytes).1
  flush_data _ := rfl
  close_data _ := rfl
  write_calls bytes s := (s.write_honest bytes).2
  flush_calls s call hmem := by
    obtain rfl := List.mem_singleton.mp hmem
    exact Bool.false_ne_true

end ScriptedSink

/-! ## Operations -/

/-- What can be done to a sink that can be closed. -/
inductive Operation where
  | write (bytes : Bytes)
  | flush
  | close
deriving Repr, DecidableEq

namespace Operation

variable {σ : Type} [ByteSink σ] [Closable σ]

/-- Does it. The value is the number of bytes taken, which only a write has. -/
def perform (s : σ) : Operation → Reply σ IoError Nat
  | write bytes => ByteSink.write bytes s
  | flush => (ByteSink.flush s).map fun _ => 0
  | close => (Closable.close s).map fun _ => 0

/-- The bytes that are reported as accepted. -/
def accepted (s : σ) : Operation → Bytes
  | write bytes => bytes.take (ByteSink.write bytes s).outcome.taken
  | flush | close => []

/-- The sink behind operations that are done one after another, whatever they come to. -/
def after : List Operation → σ → σ
  | [], s => s
  | operation :: operations, s => after operations (operation.perform s).state

/-- All bytes that operations report as accepted, in order. -/
def acceptedBy : List Operation → σ → Bytes
  | [], _ => []
  | operation :: operations, s =>
    operation.accepted s ++ acceptedBy operations (operation.perform s).state

open HonestSink

variable [HonestClosable σ]

/-- What an operation has accepted stands behind what was on the sink. -/
theorem data_perform (operation : Operation) (s : σ) :
    data (operation.perform s).state = data s ++ operation.accepted s := by
  cases operation with
  | write bytes => exact write_data bytes s
  | flush => exact (flush_data s).trans (List.append_nil _).symm
  | close => exact (HonestClosable.close_data s).trans (List.append_nil _).symm

/-- **What is accepted is there.** Induction on the operations. -/
theorem data_after (operations : List Operation) (s : σ) :
    data (after operations s) = data s ++ acceptedBy operations s := by
  induction operations generalizing s with
  | nil => exact (List.append_nil _).symm
  | cons operation operations ih =>
    rw [after, ih, data_perform, acceptedBy, List.append_assoc]

/-- Of the operations, only a close gets to the close of a device at the bottom. -/
theorem eq_close_of_isClose {operation : Operation} {s : σ} {call : Call}
    (hmem : call ∈ (operation.perform s).calls) (hclose : call.isClose) : operation = close := by
  cases operation with
  | write bytes => exact absurd hclose (HonestClosable.write_calls bytes s call hmem)
  | flush => exact absurd hclose (HonestClosable.flush_calls s call hmem)
  | close => rfl

end Operation

end MessageFraming
