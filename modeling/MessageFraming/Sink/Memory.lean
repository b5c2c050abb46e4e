import MessageFraming.Sink

/-!
# Sinks in memory

A sink that takes everything it is offered, never fails, and counts how often it was closed. Being
closed does not stop it from taking more.
-/

namespace MessageFraming

structure MemorySink where
  data : Bytes
  closes : Nat
deriving Repr, DecidableEq

namespace MemorySink

def empty : MemorySink := ⟨[], 0⟩

def write (bytes : Bytes) (s : MemorySink) : Reply MemorySink IoError Nat :=
  .pure bytes.length { s with data := s.data ++ bytes }

instance : ByteSink MemorySink where
  write := write
  flush s := .pure () s
  patience _ := 0
  patience_le _ _ := Nat.le_refl 0

instance : Closable MemorySink where
  close s := .pure () { s with closes := s.closes + 1 }

instance : Disposable MemorySink where
  dispose s := .pure () s

end MemorySink

end MessageFraming
