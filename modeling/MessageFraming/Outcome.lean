/-!
# Outcomes

A call on a byte source, a sink or a closer ends in one of three ways: it returns, it fails with an
error of its own kind, or it crashes. A crash is not an error. It passes through every layer
unchanged, and only a layer that confines crashes (a lock, a thread) reacts to it.
-/

namespace MessageFraming

inductive Outcome (ε α : Type) where
  | ok (value : α)
  | error (cause : ε)
  | crash (message : String)
deriving Repr, DecidableEq

namespace Outcome

variable {ε ε' α β : Type}

def map (f : α → β) : Outcome ε α → Outcome ε β
  | ok value => ok (f value)
  | error cause => error cause
  | crash message => crash message

def mapError (f : ε → ε') : Outcome ε α → Outcome ε' α
  | ok value => ok value
  | error cause => error (f cause)
  | crash message => crash message

/-- Goes on with the value, if there is one. -/
def bind (o : Outcome ε α) (f : α → Outcome ε β) : Outcome ε β :=
  match o with
  | ok value => f value
  | error cause => error cause
  | crash message => crash message

/-- What is heard of a call that nobody waits for: a crash and nothing else. -/
def unheard : Outcome ε α → Outcome Empty Unit
  | crash message => crash message
  | _ => ok ()

/-- The outcome of a call with a drop at its end. A crash of the drop takes the place of a value or
an error, but not of an earlier crash. -/
def afterDrop : Outcome ε α → Outcome Empty Unit → Outcome ε α
  | ok _, crash message | error _, crash message => crash message
  | outcome, _ => outcome

def ofExcept : Except ε α → Outcome ε α
  | .ok value => ok value
  | .error cause => error cause

/-- What a call returned, if it did. -/
def returned : Outcome ε α → Option (Except ε α)
  | ok value => some (.ok value)
  | error cause => some (.error cause)
  | crash _ => none

@[simp] theorem map_ok (f : α → β) (value : α) :
    (ok value : Outcome ε α).map f = ok (f value) := rfl
@[simp] theorem map_error (f : α → β) (cause : ε) :
    (error cause : Outcome ε α).map f = error cause := rfl
@[simp] theorem map_crash (f : α → β) (message : String) :
    (crash message : Outcome ε α).map f = crash message := rfl

@[simp] theorem mapError_ok (f : ε → ε') (value : α) :
    (ok value : Outcome ε α).mapError f = ok value := rfl
@[simp] theorem mapError_error (f : ε → ε') (cause : ε) :
    (error cause : Outcome ε α).mapError f = error (f cause) := rfl
@[simp] theorem mapError_crash (f : ε → ε') (message : String) :
    (crash message : Outcome ε α).mapError f = crash message := rfl

@[simp] theorem bind_ok (value : α) (f : α → Outcome ε β) : (ok value).bind f = f value := rfl
@[simp] theorem bind_error (cause : ε) (f : α → Outcome ε β) :
    (error cause : Outcome ε α).bind f = error cause := rfl
@[simp] theorem bind_crash (message : String) (f : α → Outcome ε β) :
    (crash message : Outcome ε α).bind f = crash message := rfl

@[simp] theorem afterDrop_ok (outcome : Outcome ε α) : outcome.afterDrop (ok ()) = outcome := by
  cases outcome <;> rfl
@[simp] theorem crash_afterDrop (message : String) (drop : Outcome Empty Unit) :
    (crash message : Outcome ε α).afterDrop drop = crash message := by
  cases drop <;> rfl

@[simp] theorem returned_ofExcept (result : Except ε α) :
    (ofExcept result).returned = some result := by
  cases result <;> rfl
@[simp] theorem returned_crash (message : String) :
    (crash message : Outcome ε α).returned = none := rfl

theorem returned_eq_some {o : Outcome ε α} {result : Except ε α} (h : o.returned = some result) :
    o = ofExcept result := by
  cases o <;> cases h <;> rfl

/-- Whoever did not return has crashed. -/
theorem returned_eq_none {o : Outcome ε α} (h : o.returned = none) :
    ∃ message, o = crash message := by
  cases o with
  | ok _ | error _ => cases h
  | crash message => exact ⟨message, rfl⟩

theorem map_map {γ : Type} (f : α → β) (g : β → γ) (o : Outcome ε α) :
    (o.map f).map g = o.map (fun value => g (f value)) := by
  cases o <;> rfl

end Outcome

end MessageFraming
