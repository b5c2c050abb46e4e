import MessageFraming.Closing.Once

/-!
# Callers of a once-only closer

Any number of callers close one shared once-only closer, each as often as it likes. The outcome is
kept in a cell that one caller at a time may fill. That caller takes the lock of the closer below
and runs it, and the others wait meanwhile. If the run returns, the cell keeps what it returned and
gives it to everyone who waits. If it crashes, the cell stays empty, so that another caller may set
about filling it, and the lock is poisoned. `Callers.Step` is one step of one caller, and
`Callers.Reachable` is what interleavings of them come to.

The records of runs and answers, newest first, are there to be spoken about: no step looks at them.
-/

namespace MessageFraming

/-- Where a caller stands. -/
inductive Caller where
  /-- Not within a call. -/
  | outside
  /-- Before the cell, which is empty or not. -/
  | waiting
  /-- About to take the lock, in order to fill the cell. -/
  | locking
  /-- Running the closer below. -/
  | running
deriving Repr, DecidableEq

structure Callers (κ : Type) where
  /-- The closer below, and the cell. -/
  closer : OnceCloser κ
  callers : List Caller
  /-- Who is filling the cell. -/
  filler : Option Nat
  /-- Who holds the lock of the closer below. -/
  holder : Option Nat
  poisoned : Bool
  /-- Who ran the closer below, and how it went. -/
  runs : List (Nat × Outcome IoError Unit)
  /-- Who left its call with which answer. -/
  answers : List (Nat × Outcome IoError Unit)

namespace Callers

variable {κ : Type}

/-- `count` callers, none of them within a call. -/
def start (closer : κ) (count : Nat) : Callers κ :=
  ⟨.ofCloser closer, List.replicate count .outside, none, none, false, [], []⟩

/-- Caller `i` goes on as `caller`. -/
def set (i : Nat) (caller : Caller) (s : Callers κ) : Callers κ :=
  { s with callers := s.callers.set i caller }

/-- Caller `i` leaves its call with what a close has come to. -/
def leave (i : Nat) (reply : Reply (OnceCloser κ) IoError Unit) (s : Callers κ) : Callers κ :=
  { s.set i .outside with closer := reply.state, answers := (i, reply.outcome) :: s.answers }

/-- What the lock guards. It comes as an error if someone has crashed with it. -/
def lock (s : Callers κ) : Except κ κ :=
  if s.poisoned then .error s.closer.closer else .ok s.closer.closer

/-- The closer below, out of a poisoned lock too. -/
def below (s : Callers κ) : κ :=
  match s.lock with
  | .ok closer | .error closer => closer

/-- The run of caller `i` has ended. The lock is free again, poisoned if the run crashed, and the
caller leaves with what its close makes of the run. -/
def finish (i : Nat) (run : Reply κ IoError Unit) (s : Callers κ) : Callers κ :=
  { s.leave i (OnceCloser.keep run) with
    filler := none
    holder := none
    poisoned := s.poisoned || run.outcome.returned.isNone
    runs := (i, run.outcome) :: s.runs }

inductive Step [Closable κ] : Callers κ → Callers κ → Prop where
  | call {s : Callers κ} {i : Nat} (hi : s.callers[i]? = some .outside) : Step s (s.set i .waiting)
  /-- The cell is filled, and a close needs nothing else. -/
  | join {s : Callers κ} {i : Nat} (hi : s.callers[i]? = some .waiting)
      (hfilled : s.closer.isClosed = true) : Step s (s.leave i s.closer.close)
  /-- The cell is empty and nobody is filling it. -/
  | fill {s : Callers κ} {i : Nat} (hi : s.callers[i]? = some .waiting)
      (hempty : s.closer.isClosed = false) (hidle : s.filler = none) :
      Step s { s.set i .locking with filler := some i }
  | lock {s : Callers κ} {i : Nat} (hi : s.callers[i]? = some .locking) (hfree : s.holder = none) :
      Step s { s.set i .running with holder := some i }
  /-- The run ends, however it went. -/
  | finish {s : Callers κ} {i : Nat} {run : Reply κ IoError Unit}
      (hi : s.callers[i]? = some .running) (hrun : Closable.close s.below = run) :
      Step s (s.finish i run)

/-- The states that interleavings reach from a closer and its callers. -/
inductive Reachable [Closable κ] (closer : κ) (count : Nat) : Callers κ → Prop where
  | start : Reachable closer count (start closer count)
  | step {s s' : Callers κ} : Reachable closer count s → Step s s' → Reachable closer count s'

end Callers

end MessageFraming
