import MessageFraming.IoError

/-!
# Frame errors

Why a frame could not be read or written. The message of an I/O failure names the step that met it;
the step is an inductive type, so that no other text can stand there by accident, and
`FrameError.Step.custom` is left for callers with steps of their own.
-/

namespace MessageFraming

/-- What a codec was doing when its source or sink failed. -/
inductive FrameError.Step where
  | readLengthPrefix
  | readPayload
  | readLine
  | writeLengthPrefix
  | writePayload
  | writeSeparator
  | flush
  | custom (name : String)
deriving Repr, DecidableEq

inductive FrameError where
  /-- The source or sink failed. -/
  | io (step : FrameError.Step) (cause : IoError)
  /-- The input ended inside the payload. -/
  | truncated (declared : Nat)
  /-- The input ended inside the length prefix. -/
  | truncatedPrefix
  /-- The length prefix does not fit 64 bits. -/
  | varintOverflow
  | frameTooLarge (length limit : Nat)
  | lineTooLong (limit : Nat)
  /-- A writer crashed while it held the lock. -/
  | poisoned
deriving Repr, DecidableEq

namespace FrameError

def Step.name : Step → String
  | readLengthPrefix => "read length prefix"
  | readPayload => "read payload"
  | readLine => "read line"
  | writeLengthPrefix => "write length prefix"
  | writePayload => "write payload"
  | writeSeparator => "write separator"
  | flush => "flush"
  | custom name => name

def message : FrameError → String
  | io step cause => step.name ++ ": " ++ cause.message
  | truncated declared =>
    "truncated frame: declared " ++ toString declared ++ " payload bytes, input ended early"
  | truncatedPrefix => "truncated frame: input ended inside the length prefix"
  | varintOverflow => "malformed length prefix: varint overflows 64 bits"
  | frameTooLarge length limit =>
    "frame of " ++ toString length ++ " bytes exceeds the limit of " ++ toString limit ++ " bytes"
  | lineTooLong limit => "line too long: exceeds " ++ toString limit ++ " bytes"
  | poisoned => "frame writer lock poisoned"

/-- The messages of the errors behind this one, nearest first. -/
def causes : FrameError → List String
  | io _ cause => cause.trail
  | _ => []

/-- The messages found by following an error that wraps this one. -/
def trail (e : FrameError) : List String := e.message :: e.causes

/-- Whether the input ended inside a frame. -/
def isTruncation : FrameError → Bool
  | truncated _ | truncatedPrefix => true
  | _ => false

def ioKind? : FrameError → Option ErrorKind
  | io _ cause => some cause.kind
  | _ => none

end FrameError

end MessageFraming
