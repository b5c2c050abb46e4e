import MessageFraming.Chunk.Config
import MessageFraming.Lines.Reader

/-!
# Chunks

A chunk is a run of bytes of a line-oriented stream that begins and ends on line boundaries. It
holds all it needs to be decoded on its own: its place in the stream, its bytes, and the limit for
its lines. Decoding passes over empty lines.
-/

namespace MessageFraming

structure Chunk where
  /-- Place in the order of production, from zero. -/
  index : Nat
  bytes : Bytes
  maxLineLength : Nat
deriving Repr, DecidableEq

namespace Chunk

def size (c : Chunk) : Nat := c.bytes.length

/-- A fresh cursor over the frames of the chunk. -/
def reader (c : Chunk) : Lines.Reader :=
  .ofSource [.data c.bytes] { Lines.Config.skippingEmpty with maxLineLength := c.maxLineLength }

/-- All frames of the chunk. -/
def decode (c : Chunk) : Outcome FrameError (List Bytes) := (Cursor.drain c.reader).1

end Chunk

/-- A state machine that hands out chunks; no chunk means the end of the stream. -/
class ChunkFeed (σ : Type) where
  next : σ → Outcome ChunkError (Option Chunk) × σ

/-- A feed each of whose chunks costs something, so that only finitely many can come. -/
class FiniteChunkFeed (σ : Type) extends ChunkFeed σ where
  budget : σ → Nat
  budget_lt : ∀ {s s' : σ} {chunk : Chunk},
    next s = (.ok (some chunk), s') → budget s' < budget s

namespace ChunkFeed

/-- The loop of `drain`, with the chunks so far newest first. -/
def drainOnto {σ : Type} [FiniteChunkFeed σ] (newestFirst : List Chunk) (s : σ) :
    Outcome ChunkError (List Chunk) × σ :=
  match _h : next s with
  | (.ok (some chunk), rest) => drainOnto (chunk :: newestFirst) rest
  | (.ok none, rest) => (.ok newestFirst.reverse, rest)
  | (.error e, rest) => (.error e, rest)
  | (.crash message, rest) => (.crash message, rest)
termination_by FiniteChunkFeed.budget s
decreasing_by exact FiniteChunkFeed.budget_lt _h

/-- Every chunk up to the end of the stream. An error takes the chunks in front of it with it. -/
def drain {σ : Type} [FiniteChunkFeed σ] (s : σ) : Outcome ChunkError (List Chunk) × σ :=
  drainOnto [] s

end ChunkFeed

end MessageFraming
