import MessageFraming.Sink

/-!
# Shared buffers

A buffer in memory behind a lock, whose contents stay in reach of others while a writer owns it.
A crash of someone who holds the lock poisons it. Writes fail from then on; looking at the contents,
flushing and appending past the lock's verdict do not.
-/

namespace MessageFraming

structure SharedBuffer where
  contents : Bytes
  poisoned : Bool
deriving Repr, DecidableEq

namespace SharedBuffer

def empty : SharedBuffer := ⟨[], false⟩

def lockPoisoned : IoError := .plain .other "shared buffer lock poisoned"

/-- Adds bytes whether the lock is poisoned or not. -/
def append (bytes : Bytes) (b : SharedBuffer) : SharedBuffer :=
  { b with contents := b.contents ++ bytes }

/-- Someone crashes with the lock in hand. -/
def poison (b : SharedBuffer) : SharedBuffer := { b with poisoned := true }

def write (bytes : Bytes) (b : SharedBuffer) : Reply SharedBuffer IoError Nat :=
  if b.poisoned then ⟨.error lockPoisoned, b, []⟩ else .pure bytes.length (b.append bytes)

instance : ByteSink SharedBuffer where
  write := write
  flush b := .pure () b
  patience _ := 0
  patience_le bytes b := by
    unfold write
    split
    · simp [Outcome.interruptions, lockPoisoned, IoError.plain, IoError.isInterrupted]
    · simp [Reply.pure, Outcome.interruptions]

end SharedBuffer

end MessageFraming
