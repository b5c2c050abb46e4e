import MessageFraming.Decode.Collector

/-!
# Decoding in order

The plain way to decode a feed: take a chunk, decode it, add its frames, and take the next. It stops
at the first failure, of the feed or of the decoder. What a pipeline makes of a feed is to be
compared with this.
-/

namespace MessageFraming

namespace DecodedStream

def empty : DecodedStream := ⟨[], .zero⟩

/-- The stream with one more chunk at its end. -/
def append (chunk : DecodedChunk) (s : DecodedStream) : DecodedStream :=
  ⟨s.frames ++ chunk.frames, s.counters + chunk.counters⟩

end DecodedStream

/-- The loop of `decodeInOrderWith`, behind the chunks that make up `stream`. -/
def decodeOnto {σ : Type} [FiniteChunkFeed σ] (decode : Chunk → Outcome StreamError DecodedChunk)
    (stream : DecodedStream) (feed : σ) : Outcome StreamError DecodedStream :=
  match _h : ChunkFeed.next feed with
  | (.ok (some chunk), rest) =>
    match decode chunk with
    | .ok decoded => decodeOnto decode (stream.append decoded) rest
    | .error e => .error e
    | .crash message => .crash message
  | (.ok none, _) => .ok stream
  | (.error e, _) => .error (.chunk e)
  | (.crash message, _) => .crash message
termination_by FiniteChunkFeed.budget feed
decreasing_by exact FiniteChunkFeed.budget_lt _h

/-- Decodes the chunks of a feed one after the other, with a decoder of the caller's choice. -/
def decodeInOrderWith {σ : Type} [FiniteChunkFeed σ] (feed : σ)
    (decode : Chunk → Outcome StreamError DecodedChunk) : Outcome StreamError DecodedStream :=
  decodeOnto decode .empty feed

/-- Decodes the chunks of a feed one after the other. -/
def decodeInOrder {σ : Type} [FiniteChunkFeed σ] (feed : σ) : Outcome StreamError DecodedStream :=
  decodeInOrderWith feed Chunk.decoded

end MessageFraming
