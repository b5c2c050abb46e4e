import MessageFraming.Sink

/-!
# Closing once

Wraps a closer so that its close returns at most once, whoever asks and however often. The outcome
of that close is kept, and everyone gets it. A close that crashes leaves no outcome, and the next
caller runs the closer again.
-/

namespace MessageFraming

structure OnceCloser (κ : Type) where
  closer : κ
  /-- How the one close that returned went. -/
  outcome : Option (Except IoError Unit)

namespace OnceCloser

variable {κ : Type}

def ofCloser (closer : κ) : OnceCloser κ := ⟨closer, none⟩

def isClosed (c : OnceCloser κ) : Bool := c.outcome.isSome

theorem isClosed_eq_false_iff {c : OnceCloser κ} : c.isClosed = false ↔ c.outcome = none := by
  simp [isClosed]

/-- What a close makes of its run of the closer below: the outcome is kept if the run returned. -/
def keep (run : Reply κ IoError Unit) : Reply (OnceCloser κ) IoError Unit :=
  ⟨run.outcome, ⟨run.state, run.outcome.returned⟩, run.calls⟩

def close [Closable κ] (c : OnceCloser κ) : Reply (OnceCloser κ) IoError Unit :=
  match c.outcome with
  | some outcome => ⟨.ofExcept outcome, c, []⟩
  | none => keep (Closable.close c.closer)

/-- A kept outcome is told again, and nothing else happens. -/
theorem close_of_filled [Closable κ] {c : OnceCloser κ} {outcome : Except IoError Unit}
    (h : c.outcome = some outcome) : c.close = ⟨.ofExcept outcome, c, []⟩ := by
  unfold close
  rw [h]

/-- Without one the closer below is run. -/
theorem close_of_empty [Closable κ] {c : OnceCloser κ} (h : c.outcome = none) :
    c.close = keep (Closable.close c.closer) := by
  unfold close
  rw [h]

/-- As a closer among others it wraps a kept error in one of the same kind, text and causes, which
makes no difference to an `IoError`. -/
instance [Closable κ] : Closable (OnceCloser κ) where
  close := close

instance [Disposable κ] : Disposable (OnceCloser κ) where
  dispose c := (Disposable.dispose c.closer).mapState fun closer => { c with closer }

end OnceCloser

end MessageFraming
