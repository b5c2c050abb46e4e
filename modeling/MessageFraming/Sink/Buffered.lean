import MessageFraming.Units
import MessageFraming.Sink

/-!
# Buffered sinks

A buffered sink collects bytes and hands them on in larger writes. What it guarantees is order and
completeness: the sink below never gets a byte before the ones accepted earlier, and a failure
leaves every byte that was not handed on in the buffer.

- `write` buffers what fits, flushes the buffer first if the bytes do not fit beside it, and passes
  writes of at least the capacity on unbuffered.
- `flush` empties the buffer and flushes the sink below.
- `close` flushes, and then closes the sink below where the sink was set up to.
- `release` empties the buffer and gives the sink below back.

Dropping it empties the buffer once more, unless the last write on the sink below crashed: whether
those bytes arrived is unknown then, and writing them again could double them. Nobody hears of an
error there, but a crash is heard like any other.
-/

namespace MessageFraming

structure BufferedSink (σ : Type) where
  sink : σ
  capacity : Nat
  /-- Whether closing goes through to the sink below. -/
  closesSink : Bool
  /-- Bytes accepted and not handed on yet. -/
  buffer : Bytes
  /-- Whether the last write on the sink below crashed. -/
  crashed : Bool
deriving Repr, DecidableEq

namespace BufferedSink

variable {σ : Type}

/-- A buffered sink over `sink`; no capacity, or one of zero, stands for the default. -/
def ofSink (sink : σ) (closesSink : Bool) (capacity : Option Nat) : BufferedSink σ :=
  let capacity := match capacity with
    | none | some 0 => defaultBufferSize
    | some n => n
  ⟨sink, capacity, closesSink, [], false⟩

/-- Room left in the buffer. -/
def spare (b : BufferedSink σ) : Nat := b.capacity - b.buffer.length

/-- The sink below took nothing of the buffer. -/
def bufferRefused : IoError := .plain .writeZero "failed to write the buffered data"

variable [ByteSink σ]

/-- Hands the buffer on until it is empty. -/
def flushBuffer (b : BufferedSink σ) : Reply (BufferedSink σ) IoError Unit :=
  if _hb : b.buffer = [] then .pure () b
  else
    match _h : ByteSink.write b.buffer b.sink with
    | ⟨.ok 0, sink, calls⟩ => ⟨.error bufferRefused, { b with sink, crashed := false }, calls⟩
    | ⟨.ok (n + 1), sink, calls⟩ =>
      (flushBuffer { b with sink, buffer := b.buffer.drop (n + 1), crashed := false }).after calls
    | ⟨.error e, sink, calls⟩ =>
      if _he : e.isInterrupted then (flushBuffer { b with sink, crashed := false }).after calls
      else ⟨.error e, { b with sink, crashed := false }, calls⟩
    | ⟨.crash message, sink, calls⟩ => ⟨.crash message, { b with sink, crashed := true }, calls⟩
termination_by ByteSink.patience b.sink + b.buffer.length
decreasing_by
  · have hle := ByteSink.patience_write_le _h
    have hpos := List.length_pos_iff.mpr _hb
    simp only [List.length_drop]
    omega
  · have hlt := ByteSink.patience_write_lt _h _he
    omega

/-- Offers bytes to the sink below, past the buffer. -/
def passOn (bytes : Bytes) (b : BufferedSink σ) : Reply (BufferedSink σ) IoError Nat :=
  match ByteSink.write bytes b.sink with
  | ⟨.crash message, sink, calls⟩ => ⟨.crash message, { b with sink, crashed := true }, calls⟩
  | ⟨outcome, sink, calls⟩ => ⟨outcome, { b with sink, crashed := false }, calls⟩

/-- Buffers bytes, or passes them on if there are as many as the buffer holds. -/
def accept (bytes : Bytes) (b : BufferedSink σ) : Reply (BufferedSink σ) IoError Nat :=
  if bytes.length < b.capacity then .pure bytes.length { b with buffer := b.buffer ++ bytes }
  else b.passOn bytes

def write (bytes : Bytes) (b : BufferedSink σ) : Reply (BufferedSink σ) IoError Nat :=
  if bytes.length < b.spare then .pure bytes.length { b with buffer := b.buffer ++ bytes }
  else if b.spare < bytes.length then b.flushBuffer.bind fun _ b => b.accept bytes
  else b.accept bytes

def flush (b : BufferedSink σ) : Reply (BufferedSink σ) IoError Unit :=
  b.flushBuffer.bind fun _ b => (ByteSink.flush b.sink).mapState fun sink => { b with sink }

def close [Closable σ] (b : BufferedSink σ) : Reply (BufferedSink σ) IoError Unit :=
  b.flush.bind fun _ b =>
    if b.closesSink then (Closable.close b.sink).mapState fun sink => { b with sink }
    else .pure () b

/-- Empties the buffer, unless a crash left its fate unknown. -/
def drop (b : BufferedSink σ) : Disposal (BufferedSink σ) :=
  if b.crashed then .pure () b else b.flushBuffer.unheard

/-- Empties the buffer and drops the sink below. -/
def dispose [Disposable σ] (b : BufferedSink σ) : Disposal (BufferedSink σ) :=
  b.drop.thenDrop fun b => (Disposable.dispose b.sink).mapState fun sink => { b with sink }

/-- Gives the sink below back once the buffer is empty. On a failure the buffered sink is dropped,
and the sink below with it; should that crash, the crash is the outcome. -/
def release [Disposable σ] (b : BufferedSink σ) : Reply σ IoError Unit :=
  match b.flushBuffer with
  | ⟨.ok (), b, calls⟩ => ⟨.ok (), b.sink, calls⟩
  | failed => failed.thenDrop fun b => b.dispose.mapState BufferedSink.sink

/-! ### Interruptions stay below -/

/-- Emptying the buffer is never interrupted, and costs no more patience than the sink has. -/
theorem flushBuffer_patience_le (b : BufferedSink σ) :
    ByteSink.patience b.flushBuffer.state.sink + b.flushBuffer.outcome.interruptions
      ≤ ByteSink.patience b.sink := by
  fun_induction flushBuffer b with
  | case1 b hb => simp [Reply.pure, Outcome.interruptions]
  | case2 b hb sink calls h =>
    have hle := ByteSink.patience_write_le h
    simpa [Outcome.interruptions, bufferRefused, IoError.plain, IoError.isInterrupted] using hle
  | case3 b hb n sink calls h ih =>
    have hle := ByteSink.patience_write_le h
    simp only [Reply.after_state, Reply.after_outcome] at ih ⊢
    omega
  -- the write was interrupted and is made again
  | case4 b hb e sink calls h he ih =>
    have hle := ByteSink.patience_write_le h
    simp only [Reply.after_state, Reply.after_outcome] at ih ⊢
    omega
  | case5 b hb e sink calls h he =>
    have hle := ByteSink.patience_write_le h
    simpa [Outcome.interruptions, he] using hle
  | case6 b hb message sink calls h =>
    have hle := ByteSink.patience_write_le h
    simpa [Outcome.interruptions] using hle

/-- Only the sink below can be interrupted, so its patience is what a write may cost. -/
theorem accept_patience_le (bytes : Bytes) (b : BufferedSink σ) :
    ByteSink.patience (b.accept bytes).state.sink + (b.accept bytes).outcome.interruptions
      ≤ ByteSink.patience b.sink := by
  unfold accept
  split
  · simp [Reply.pure, Outcome.interruptions]
  · have hle := ByteSink.patience_le bytes b.sink
    unfold passOn
    split <;> rename_i h <;> simpa only [h] using hle

theorem write_patience_le (bytes : Bytes) (b : BufferedSink σ) :
    ByteSink.patience (b.write bytes).state.sink + (b.write bytes).outcome.interruptions
      ≤ ByteSink.patience b.sink := by
  unfold write
  split
  · simp [Reply.pure, Outcome.interruptions]
  · split
    · -- the buffer is flushed first, and the bytes are accepted behind that
      have hflush := b.flushBuffer_patience_le
      rcases hr : b.flushBuffer with ⟨outcome, b', calls⟩
      simp only [hr] at hflush
      cases outcome with
      | ok u =>
        have haccept := b'.accept_patience_le bytes
        simp only [Reply.bind_ok, Reply.after_state, Reply.after_outcome]
        omega
      | error e => simpa [Outcome.interruptions] using hflush
      | crash message => simpa [Outcome.interruptions] using hflush
    · exact b.accept_patience_le bytes

instance : ByteSink (BufferedSink σ) where
  write := write
  flush := flush
  patience b := ByteSink.patience b.sink
  patience_le := write_patience_le

instance [Closable σ] : Closable (BufferedSink σ) where
  close := close

instance [Disposable σ] : Disposable (BufferedSink σ) where
  dispose := dispose

end BufferedSink

end MessageFraming
