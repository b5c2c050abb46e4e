import MessageFraming.Frame.Error
import MessageFraming.Chunk.Error
import MessageFraming.Closing.Chain

/-!
# Stream errors

One type for whatever can go wrong with a stream, whichever layer it comes from.
-/

namespace MessageFraming

inductive StreamError where
  /-- Outside of any frame codec. -/
  | io (cause : IoError)
  | frame (cause : FrameError)
  | chunk (cause : ChunkError)
  | close (cause : CloseChainError)
  /-- Chunks came back doubled or incomplete. -/
  | pipeline (reason : String)
  /-- A thread of a pipeline crashed. -/
  | panicked (thread : String)
deriving Repr, DecidableEq

namespace StreamError

def message : StreamError → String
  | io cause => "I/O error: " ++ cause.message
  | frame cause => "frame error: " ++ cause.message
  | chunk cause => "chunk error: " ++ cause.message
  | close cause => "close error: " ++ cause.message
  | pipeline reason => "pipeline error: " ++ reason
  | panicked thread => thread ++ " thread panicked"

/-- The messages of the errors behind this one, nearest first. -/
def causes : StreamError → List String
  | io cause => cause.trail
  | frame cause => cause.trail
  | chunk cause => cause.trail
  | close cause => cause.trail
  | pipeline _ | panicked _ => []

/-- A chunk came a second time. -/
def duplicateChunk (index : Nat) : StreamError := pipeline ("duplicate chunk " ++ toString index)

/-- A chunk never came. -/
def missingChunk (index : Nat) : StreamError := pipeline ("missing chunk " ++ toString index)

/-- The splitter found nobody left to take its chunk. -/
def workersGone : StreamError := pipeline "decode workers exited before the stream was drained"

end StreamError

end MessageFraming
