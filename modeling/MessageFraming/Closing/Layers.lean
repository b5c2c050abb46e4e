import MessageFraming.Sink.Scripted
import MessageFraming.Sink.Buffered
import MessageFraming.Closing.Chain
import MessageFraming.Closing.Once

/-!
# Layered writers and closers

Writers and closers are put together at run time from sinks, buffers, close chains and once-only
closers, to any depth. `WriterLayer` and `CloserLayer` are one layer over writers and closers that
are given; `WriterAt n` and `CloserAt n` stack `n` layers. Each layer behaves by the definitions of
its own module, and the stack adds nothing to them.
-/

namespace MessageFraming

/-- What a device owns of scripted sinks, in the order in which they were created. -/
class HasSinks (σ : Type) where
  sinks : σ → List ScriptedSink

/-- All that a layered writer can do. -/
class Device (σ : Type) extends ByteSink σ, Closable σ, Disposable σ, HasSinks σ

/-- All that a layered closer can do. -/
class Closer (κ : Type) extends Closable κ, Disposable κ, HasSinks κ

inductive WriterLayer (ω κ : Type) where
  | sink (sink : ScriptedSink)
  | buffered (sink : BufferedSink ω)
  | chain (chain : CloseChain ω κ)

inductive CloserLayer (ω κ : Type) where
  | callback (callback : Callback)
  | once (closer : OnceCloser κ)
  | writer (writer : WriterLayer ω κ)

section Layer

variable {ω κ : Type}

namespace CloseChain

def stepSinks [HasSinks κ] : CloseStep ω κ → List ScriptedSink
  | .owned closer => HasSinks.sinks closer
  | .onWriter _ => []

/-- The writer's sinks and then those of the steps. -/
def sinks [HasSinks ω] [HasSinks κ] (c : CloseChain ω κ) : List ScriptedSink :=
  HasSinks.sinks c.writer ++ c.steps.flatMap stepSinks

end CloseChain

instance : HasSinks ScriptedSink where
  sinks s := [s]

instance [HasSinks ω] : HasSinks (BufferedSink ω) where
  sinks b := HasSinks.sinks b.sink

instance [HasSinks ω] [HasSinks κ] : HasSinks (CloseChain ω κ) where
  sinks := CloseChain.sinks

instance : Device ScriptedSink where
  dispose := Disposable.dispose

instance : Closer Callback where
  sinks _ := []

namespace WriterLayer

variable [Device ω] [Closer κ]

def write (bytes : Bytes) : WriterLayer ω κ → Reply (WriterLayer ω κ) IoError Nat
  | sink s => (ByteSink.write bytes s).mapState sink
  | buffered b => (ByteSink.write bytes b).mapState buffered
  | chain c => (ByteSink.write bytes c).mapState chain

def flush : WriterLayer ω κ → Reply (WriterLayer ω κ) IoError Unit
  | sink s => (ByteSink.flush s).mapState sink
  | buffered b => (ByteSink.flush b).mapState buffered
  | chain c => (ByteSink.flush c).mapState chain

def close : WriterLayer ω κ → Reply (WriterLayer ω κ) IoError Unit
  | sink s => (Closable.close s).mapState sink
  | buffered b => (Closable.close b).mapState buffered
  | chain c => (Closable.close c).mapState chain

def dispose : WriterLayer ω κ → Disposal (WriterLayer ω κ)
  | sink s => (Disposable.dispose s).mapState sink
  | buffered b => (Disposable.dispose b).mapState buffered
  | chain c => (Disposable.dispose c).mapState chain

def patience : WriterLayer ω κ → Nat
  | sink s => ByteSink.patience s
  | buffered b => ByteSink.patience b
  | chain c => ByteSink.patience c

instance : Device (WriterLayer ω κ) where
  write := write
  flush := flush
  patience := patience
  patience_le bytes layer := by
    cases layer with
    | sink s => exact ByteSink.patience_le bytes s
    | buffered b => exact ByteSink.patience_le bytes b
    | chain c => exact ByteSink.patience_le bytes c
  close := close
  dispose := dispose
  sinks
    | sink s => HasSinks.sinks s
    | buffered b => HasSinks.sinks b
    | chain c => HasSinks.sinks c

end WriterLayer

namespace CloserLayer

variable [Device ω] [Closer κ]

def close : CloserLayer ω κ → Reply (CloserLayer ω κ) IoError Unit
  | callback c => (Closable.close c).mapState callback
  | once c => (Closable.close c).mapState once
  | writer w => (Closable.close w).mapState writer

def dispose : CloserLayer ω κ → Disposal (CloserLayer ω κ)
  | callback c => (Disposable.dispose c).mapState callback
  | once c => (Disposable.dispose c).mapState once
  | writer w => (Disposable.dispose w).mapState writer

instance : Closer (CloserLayer ω κ) where
  close := close
  dispose := dispose
  sinks
    | callback _ => []
    | once c => HasSinks.sinks c.closer
    | writer w => HasSinks.sinks w

end CloserLayer

end Layer

/-! ## Stacks of layers -/

/-- Writers and closers of `n` layers over bare sinks and functions. -/
def LayersAt : Nat → Type × Type
  | 0 => (ScriptedSink, Callback)
  | n + 1 => (WriterLayer (LayersAt n).1 (LayersAt n).2, CloserLayer (LayersAt n).1 (LayersAt n).2)

abbrev WriterAt (n : Nat) : Type := (LayersAt n).1
abbrev CloserAt (n : Nat) : Type := (LayersAt n).2

/-- What a stack of any height can do. -/
def capabilities : (n : Nat) → Device (WriterAt n) × Closer (CloserAt n)
  | 0 => (inferInstanceAs (Device ScriptedSink), inferInstanceAs (Closer Callback))
  | n + 1 =>
    let below := capabilities n
    let _ : Device (WriterAt n) := below.1
    let _ : Closer (CloserAt n) := below.2
    (inferInstanceAs (Device (WriterLayer (WriterAt n) (CloserAt n))),
      inferInstanceAs (Closer (CloserLayer (WriterAt n) (CloserAt n))))

instance (n : Nat) : Device (WriterAt n) := (capabilities n).1
instance (n : Nat) : Closer (CloserAt n) := (capabilities n).2

/-! ## Steps on the chain's own writer -/

/-- What a close chain can be told to do to its own writer. -/
inductive WriterAction where
  | flush
  | close
  | write (bytes : Bytes)
deriving Repr, DecidableEq

/-- The action as a step of a chain; it shows among the calls before it acts. -/
def WriterAction.run {ω : Type} [Device ω] (action : WriterAction) (writer : ω) :
    Reply ω IoError Unit :=
  let reply := match action with
    | flush => ByteSink.flush writer
    | close => Closable.close writer
    | write bytes => ByteSink.writeAll bytes writer
  reply.after [.writerStep]

end MessageFraming
