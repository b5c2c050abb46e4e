import MessageFraming.Outcome
import MessageFraming.IoError

/-!
# Replies of devices

A call on a device (a sink, a closer, anything layered over them) answers with an outcome, the
state that the device is left in, and the calls that reached the devices at the bottom, in order.
The state is there also when the call failed or crashed: what was written stays written.

Keeping the calls in the reply is what lets statements speak of who was called, how often and in
which order, without a log hidden in some state.
-/

namespace MessageFraming

/-- How a write on a bottom device went. -/
inductive Call.Write where
  | accepted (count : Nat)
  | failed (kind : ErrorKind)
  | crashed
  /-- The device was closed already. -/
  | refused
deriving Repr, DecidableEq

/-- How any other call on a bottom device went. -/
inductive Call.Result where
  | done
  | failed (kind : ErrorKind)
  | crashed
deriving Repr, DecidableEq

/-- One call on a device at the bottom. -/
inductive Call where
  | write (device : String) (offered : Nat) (result : Call.Write)
  | flush (device : String) (result : Call.Result)
  | close (device : String) (result : Call.Result)
  /-- A closing function ran. -/
  | invoke (function : String) (result : Call.Result)
  /-- A close chain turned to its own writer. -/
  | writerStep
deriving Repr, DecidableEq

def Call.Result.ofOutcome {α : Type} : Outcome IoError α → Call.Result
  | .ok _ => .done
  | .error e => .failed e.kind
  | .crash _ => .crashed

namespace Call

def Result.suffix : Result → String
  | done => ""
  | failed kind => "!" ++ kind.name
  | crashed => "!panic"

def Write.suffix : Write → String
  | accepted count => "=" ++ toString count
  | failed kind => "!" ++ kind.name
  | crashed => "!panic"
  | refused => "!closed"

/-- The call as a line of a log: device, call, and how it went unless it simply succeeded. -/
def line : Call → String
  | write device offered result =>
    device ++ ".write(" ++ toString offered ++ ")" ++ result.suffix
  | flush device result => device ++ ".flush" ++ result.suffix
  | close device result => device ++ ".close" ++ result.suffix
  | invoke function result => function ++ ".call" ++ result.suffix
  | writerStep => "writer-step"

end Call

structure Reply (σ ε α : Type) where
  outcome : Outcome ε α
  state : σ
  calls : List Call
deriving Repr, DecidableEq

/-- The answer of a device that is dropped: nobody hears of a failure any more, but of a crash. -/
abbrev Disposal (σ : Type) := Reply σ Empty Unit

namespace Reply

variable {σ τ ε ε' α β : Type}

/-- An answer that made no calls. -/
def pure (value : α) (state : σ) : Reply σ ε α := ⟨.ok value, state, []⟩

/-- Puts earlier calls in front. -/
def after (calls : List Call) (r : Reply σ ε α) : Reply σ ε α :=
  { r with calls := calls ++ r.calls }

def map (f : α → β) (r : Reply σ ε α) : Reply σ ε β := ⟨r.outcome.map f, r.state, r.calls⟩

def mapError (f : ε → ε') (r : Reply σ ε α) : Reply σ ε' α :=
  ⟨r.outcome.mapError f, r.state, r.calls⟩

/-- The same answer seen from a device that the state is part of. -/
def mapState (f : σ → τ) (r : Reply σ ε α) : Reply τ ε α := ⟨r.outcome, f r.state, r.calls⟩

/-- Goes on from a value; an error or a crash is the last word. -/
def bind (r : Reply σ ε α) (next : α → σ → Reply σ ε β) : Reply σ ε β :=
  match r with
  | ⟨.ok value, state, calls⟩ => (next value state).after calls
  | ⟨.error e, state, calls⟩ => ⟨.error e, state, calls⟩
  | ⟨.crash message, state, calls⟩ => ⟨.crash message, state, calls⟩

/-- The same answer with nobody waiting for it. -/
def unheard (r : Reply σ ε α) : Disposal σ := ⟨r.outcome.unheard, r.state, r.calls⟩

/-- Drops what is left behind an answer, whatever the answer was. -/
def thenDrop (r : Reply σ ε α) (drop : σ → Disposal τ) : Reply τ ε α :=
  let d := drop r.state
  ⟨r.outcome.afterDrop d.outcome, d.state, r.calls ++ d.calls⟩

@[simp] theorem after_outcome (calls : List Call) (r : Reply σ ε α) :
    (r.after calls).outcome = r.outcome := rfl
@[simp] theorem after_state (calls : List Call) (r : Reply σ ε α) :
    (r.after calls).state = r.state := rfl
@[simp] theorem after_calls (calls : List Call) (r : Reply σ ε α) :
    (r.after calls).calls = calls ++ r.calls := rfl

@[simp] theorem bind_ok (value : α) (state : σ) (calls : List Call)
    (next : α → σ → Reply σ ε β) :
    (⟨.ok value, state, calls⟩ : Reply σ ε α).bind next = (next value state).after calls := rfl
@[simp] theorem bind_error (e : ε) (state : σ) (calls : List Call) (next : α → σ → Reply σ ε β) :
    (⟨.error e, state, calls⟩ : Reply σ ε α).bind next = ⟨.error e, state, calls⟩ := rfl
@[simp] theorem bind_crash (message : String) (state : σ) (calls : List Call)
    (next : α → σ → Reply σ ε β) :
    (⟨.crash message, state, calls⟩ : Reply σ ε α).bind next = ⟨.crash message, state, calls⟩ := rfl

end Reply

end MessageFraming
