import MessageFraming.Bytes
import MessageFraming.Reply

/-!
# Byte sinks

A sink takes some of the bytes that a write offers. `writeAll` offers the rest again until nothing
is left, makes an interrupted write again, and gives up on any other error and on a sink that takes
nothing.

The loop ends because each round leaves less to offer or costs the sink some of its `patience`: the
number of interruptions it can still cause.
-/

namespace MessageFraming

/-- One for an interrupted call, zero for any other. -/
def Outcome.interruptions {α : Type} : Outcome IoError α → Nat
  | .error e => if e.isInterrupted then 1 else 0
  | _ => 0

theorem Outcome.interruptions_le_one {α : Type} (o : Outcome IoError α) : o.interruptions ≤ 1 := by
  unfold interruptions
  split
  · split <;> omega
  · omega

class ByteSink (σ : Type) where
  /-- Offers bytes; the value is how many the sink took. -/
  write : Bytes → σ → Reply σ IoError Nat
  flush : σ → Reply σ IoError Unit
  patience : σ → Nat
  patience_le : ∀ bytes s,
    patience (write bytes s).state + (write bytes s).outcome.interruptions ≤ patience s

/-- A device that releases what it holds when it is told to. -/
class Closable (σ : Type) where
  close : σ → Reply σ IoError Unit

/-- An encoder over a sink, which a library may provide: it takes bytes as a sink does, and what is
on the sink below is a whole stream only once it is finished. What it makes of the bytes is
its own. -/
class StreamEncoder (ε : Type) extends ByteSink ε where
  finish : ε → Reply ε IoError Unit

/-- Closing an encoder ends its stream. The sink below stays open. -/
instance {ε : Type} [StreamEncoder ε] : Closable ε where
  close := StreamEncoder.finish

/-- A device that still has something to do when it is dropped. -/
class Disposable (σ : Type) where
  dispose : σ → Disposal σ

namespace ByteSink

variable {σ : Type} [ByteSink σ]

/-- A write never makes a sink more patient. -/
theorem patience_write_le {bytes : Bytes} {s s' : σ} {outcome : Outcome IoError Nat}
    {calls : List Call} (h : write bytes s = ⟨outcome, s', calls⟩) : patience s' ≤ patience s := by
  have := patience_le bytes s
  simp only [h] at this
  omega

/-- An interruption costs the sink some of its patience. -/
theorem patience_write_lt {bytes : Bytes} {s s' : σ} {e : IoError} {calls : List Call}
    (h : write bytes s = ⟨.error e, s', calls⟩) (he : e.isInterrupted = true) :
    patience s' < patience s := by
  have := patience_le bytes s
  simp only [h, Outcome.interruptions, he, if_true] at this
  omega

/-- Writing came to nothing: the sink took no byte of what it was offered. -/
def nothingTaken : IoError := .plain .writeZero "failed to write whole buffer"

/-- Writes all of `bytes`. -/
def writeAll (bytes : Bytes) (s : σ) : Reply σ IoError Unit :=
  if _hb : bytes = [] then .pure () s
  else
    match _h : write bytes s with
    | ⟨.ok 0, s', calls⟩ => ⟨.error nothingTaken, s', calls⟩
    | ⟨.ok (n + 1), s', calls⟩ => (writeAll (bytes.drop (n + 1)) s').after calls
    | ⟨.error e, s', calls⟩ =>
      if _he : e.isInterrupted then (writeAll bytes s').after calls else ⟨.error e, s', calls⟩
    | ⟨.crash message, s', calls⟩ => ⟨.crash message, s', calls⟩
termination_by patience s + bytes.length
decreasing_by
  · have hle := patience_write_le _h
    have hpos := List.length_pos_iff.mpr _hb
    simp only [List.length_drop]
    omega
  · have hlt := patience_write_lt _h _he
    omega

/-- Writing all is never interrupted, and costs no more patience than the sink has. -/
theorem writeAll_patience_le (bytes : Bytes) (s : σ) :
    patience (writeAll bytes s).state + (writeAll bytes s).outcome.interruptions ≤ patience s := by
  fun_induction writeAll bytes s with
  | case1 s => simp [Reply.pure, Outcome.interruptions]
  | case2 bytes s hb s' calls h =>
    have hle := patience_write_le h
    simpa [Outcome.interruptions, nothingTaken, IoError.plain, IoError.isInterrupted] using hle
  | case3 bytes s hb n s' calls h ih =>
    have hle := patience_write_le h
    simp only [Reply.after_state, Reply.after_outcome] at ih ⊢
    omega
  -- the write was interrupted and is made again
  | case4 bytes s hb e s' calls h he ih =>
    have hle := patience_write_le h
    simp only [Reply.after_state, Reply.after_outcome] at ih ⊢
    omega
  | case5 bytes s hb e s' calls h he =>
    have hle := patience_write_le h
    simpa [Outcome.interruptions, he] using hle
  | case6 bytes s hb message s' calls h =>
    have hle := patience_write_le h
    simpa [Outcome.interruptions] using hle

end ByteSink

end MessageFraming
