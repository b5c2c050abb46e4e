import MessageFraming.Sink

/-!
# Close chains

A close chain is a writer with the steps that release it, in order: resources of their own
(`CloseStep.owned`), and layers of the writer itself (`CloseStep.onWriter`). Closing runs the
pending steps up to the first failure. A step that succeeded moves to the closed ones and never runs
again; one that failed or crashed stays pending, and the next close begins with it.
-/

namespace MessageFraming

inductive CloseStep (ω κ : Type) where
  | owned (closer : κ)
  | onWriter (run : ω → Reply ω IoError Unit)

structure CloseChain (ω κ : Type) where
  writer : ω
  /-- Steps that have succeeded, in order. -/
  closed : List (CloseStep ω κ)
  /-- Steps still to succeed, in order. -/
  pending : List (CloseStep ω κ)

/-- Which step failed, counted from zero, and why. -/
structure CloseChainError where
  position : Nat
  cause : IoError
deriving Repr, DecidableEq

namespace CloseChainError

def message (e : CloseChainError) : String :=
  "close step " ++ toString e.position ++ " failed: " ++ e.cause.message

/-- The messages of the errors behind this one, nearest first. -/
def causes (e : CloseChainError) : List String := e.cause.trail

def trail (e : CloseChainError) : List String := e.message :: e.causes

/-- The same failure as an I/O error of the same kind. -/
def toIoError (e : CloseChainError) : IoError := ⟨e.cause.kind, e.message, e.causes⟩

end CloseChainError

/-- Runs one step; the state is the writer and the step after it. -/
def CloseStep.run {ω κ : Type} [Closable κ] (step : CloseStep ω κ) (writer : ω) :
    Reply (ω × CloseStep ω κ) IoError Unit :=
  match step with
  | .owned closer => (Closable.close closer).mapState fun closer => (writer, .owned closer)
  | .onWriter run => (run writer).mapState fun writer => (writer, .onWriter run)

namespace CloseChain

variable {ω κ : Type}

def ofWriter (writer : ω) (steps : List (CloseStep ω κ)) : CloseChain ω κ := ⟨writer, [], steps⟩

/-- All steps in declaration order. -/
def steps (c : CloseChain ω κ) : List (CloseStep ω κ) := c.closed ++ c.pending

/-- Runs the steps in `pending` behind those in `closed`. -/
def closeFrom [Closable κ] (writer : ω) (closed : List (CloseStep ω κ)) :
    List (CloseStep ω κ) → Reply (CloseChain ω κ) CloseChainError Unit
  | [] => .pure () ⟨writer, closed, []⟩
  | step :: pending =>
    match step.run writer with
    | ⟨.ok (), (writer, step), calls⟩ => (closeFrom writer (closed ++ [step]) pending).after calls
    | ⟨.error e, (writer, step), calls⟩ =>
      ⟨.error ⟨closed.length, e⟩, ⟨writer, closed, step :: pending⟩, calls⟩
    | ⟨.crash message, (writer, step), calls⟩ =>
      ⟨.crash message, ⟨writer, closed, step :: pending⟩, calls⟩

/-- Runs the pending steps in order, up to the first failure. -/
def closeAll [Closable κ] (c : CloseChain ω κ) : Reply (CloseChain ω κ) CloseChainError Unit :=
  closeFrom c.writer c.closed c.pending

instance [Closable κ] : Closable (CloseChain ω κ) where
  close c := c.closeAll.mapError CloseChainError.toIoError

/-- Acts on the writer in place. -/
def onWriter {ε α : Type} (action : ω → Reply ω ε α) (c : CloseChain ω κ) :
    Reply (CloseChain ω κ) ε α :=
  (action c.writer).mapState fun writer => { c with writer }

instance [ByteSink ω] : ByteSink (CloseChain ω κ) where
  write bytes := onWriter (ByteSink.write bytes)
  flush := onWriter ByteSink.flush
  patience c := ByteSink.patience c.writer
  patience_le bytes c := ByteSink.patience_le bytes c.writer

/-- Dropping a step drops what it owns, without running it. A crash does not keep the steps behind
it from being dropped. -/
def disposeSteps [Disposable κ] : List (CloseStep ω κ) → Disposal (List (CloseStep ω κ))
  | [] => .pure () []
  | .owned closer :: steps =>
    (Disposable.dispose closer).thenDrop fun closer =>
      (disposeSteps steps).mapState (.owned closer :: ·)
  | .onWriter run :: steps => (disposeSteps steps).mapState (.onWriter run :: ·)

/-- Drops all steps without running them; the writer stays. -/
def detach [Disposable κ] (c : CloseChain ω κ) : Disposal (CloseChain ω κ) :=
  (disposeSteps c.closed).thenDrop fun closed =>
    (disposeSteps c.pending).mapState fun pending => ⟨c.writer, closed, pending⟩

/-- Dropping a chain drops its writer first and then its steps in order. -/
instance [Disposable ω] [Disposable κ] : Disposable (CloseChain ω κ) where
  dispose c := (Disposable.dispose c.writer).thenDrop fun writer => detach { c with writer }

end CloseChain

end MessageFraming
