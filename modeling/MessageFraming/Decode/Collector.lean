import MessageFraming.Chunk
import MessageFraming.Counters
import MessageFraming.StreamError

/-!
# Ordered reassembly

Chunks are decoded out of order; the collector puts their frames back in order. It holds a chunk
back until every chunk with a smaller index has come, and refuses an index that it has seen.
-/

namespace MessageFraming

/-- The frames of one chunk. -/
structure DecodedChunk where
  /-- Place of the chunk in the order of production. -/
  index : Nat
  frames : List Bytes
  counters : Counters
deriving Repr, DecidableEq

/-- The frames of a whole stream, in order. -/
structure DecodedStream where
  frames : List Bytes
  counters : Counters
deriving Repr, DecidableEq

/-- Decodes one chunk and counts what it held. -/
def Chunk.decoded (c : Chunk) : Outcome StreamError DecodedChunk :=
  (c.decode.mapError StreamError.frame).map fun frames =>
    ⟨c.index, frames, Counters.zero.addChunk c.size frames⟩

structure Collector where
  /-- The least index that has not come yet. -/
  next : Nat
  /-- Chunks that came ahead of it. -/
  pending : List DecodedChunk
  frames : List Bytes
  counters : Counters
deriving Repr, DecidableEq

namespace Collector

def empty : Collector := ⟨0, [], [], .zero⟩

/-- Adds a chunk whose turn it is. -/
def accept (chunk : DecodedChunk) (c : Collector) : Collector :=
  { c with
    next := c.next + 1
    frames := c.frames ++ chunk.frames
    counters := c.counters + chunk.counters }

/-- Adds the chunks at hand whose turn has come. -/
def flushReady (c : Collector) : Collector :=
  match _h : c.pending.find? (·.index == c.next) with
  | none => c
  | some chunk =>
    flushReady { c.accept chunk with pending := c.pending.eraseP (·.index == c.next) }
termination_by c.pending.length
decreasing_by
  have hmem := List.mem_of_find?_eq_some _h
  have hlen := List.length_eraseP_of_mem hmem (List.find?_some _h)
  have hpos := List.length_pos_of_mem hmem
  omega

/-- Takes a chunk in; an index that came before is refused. -/
def push (chunk : DecodedChunk) (c : Collector) : Except StreamError Collector :=
  if chunk.index < c.next ∨ c.pending.any (·.index == chunk.index) then
    .error (.duplicateChunk chunk.index)
  else .ok (flushReady { c with pending := chunk :: c.pending })

/-- The whole stream, unless chunks are missing. -/
def finish (c : Collector) : Except StreamError DecodedStream :=
  let c := c.flushReady
  if c.pending.isEmpty then .ok ⟨c.frames, c.counters⟩ else .error (.missingChunk c.next)

end Collector

end MessageFraming
