import MessageFraming.IoError

/-!
# Chunk errors

Why a stream could not be cut into chunks: settings out of range, a frame longer than a chunk, or a
source that failed.
-/

namespace MessageFraming

inductive ChunkError where
  | invalidChunkSize (size : Nat)
  | invalidMaxLineLength (length : Nat)
  /-- A whole window held no frame boundary. -/
  | noFrameBoundary (chunkSize : Nat)
  | io (step : String) (cause : IoError)
deriving Repr, DecidableEq

namespace ChunkError

/-- The source failed while a chunk was read. -/
def readFailed (cause : IoError) : ChunkError := io "read chunk" cause

def message : ChunkError → String
  | invalidChunkSize size =>
    "invalid argument: chunk size must be between 1 byte and 1 GiB, got " ++ toString size
  | invalidMaxLineLength length =>
    "invalid argument: max line length must be positive, got " ++ toString length
  | noFrameBoundary chunkSize =>
    "no frame boundary found in a " ++ toString chunkSize ++ "-byte chunk"
  | io step cause => step ++ ": " ++ cause.message

/-- The messages of the errors behind this one, nearest first. -/
def causes : ChunkError → List String
  | io _ cause => cause.trail
  | _ => []

def trail (e : ChunkError) : List String := e.message :: e.causes

end ChunkError

end MessageFraming
