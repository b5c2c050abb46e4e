import MessageFraming.Sink

/-!
# Gzip streams

A stream encoder to run close chains with (`StreamEncoder`). It stores and does not compress: any
other encoder may stand in its place, and nothing that is proved depends on which one does.

Its stream is a header, the content in stored deflate blocks, and a trailer with the content's
checksum and length. The header goes out with the first write, the content when it is flushed or
finished, and the trailer when the encoder is finished: so a sink holds a whole stream only after
`finish`, and only once the layers between have passed it on.

`decode` reads a whole stream back, and accepts nothing in front of it, behind it or missing from
it.
-/

namespace MessageFraming

namespace Gzip

/-! ## The container -/

/-- A number as `width` bytes, least significant first. -/
def littleEndian : (width : Nat) → Nat → Bytes
  | 0, _ => []
  | width + 1, n => n.toUInt8 :: littleEndian width (n / 256)

/-- One bit of the checksum's division by the polynomial of CRC-32. -/
def crcBit (register : UInt32) : UInt32 :=
  if register &&& 1 = 1 then (register >>> 1) ^^^ 0xedb88320 else register >>> 1

def crcByte (register : UInt32) (b : UInt8) : UInt32 :=
  Nat.repeat crcBit 8 (register ^^^ b.toUInt32)

/-- The CRC-32 checksum. -/
def checksum (bytes : Bytes) : UInt32 := bytes.foldl crcByte 0xffffffff ^^^ 0xffffffff

/-- Magic number, method deflate, no flags, no time, unknown system. -/
def header : Bytes := [0x1f, 0x8b, 8, 0, 0, 0, 0, 0, 0, 0xff]

/-- Most bytes in one stored block. -/
def blockSize : Nat := 65535

/-- One stored block. -/
def block (final : Bool) (content : Bytes) : Bytes :=
  (if final then 1 else 0) :: littleEndian 2 content.length
    ++ littleEndian 2 (blockSize - content.length) ++ content

/-- The content in stored blocks. The last one is final if the stream ends with it. -/
def blocks (final : Bool) (content : Bytes) : Bytes :=
  if _h : blockSize < content.length then
    block false (content.take blockSize) ++ blocks final (content.drop blockSize)
  else block final content
termination_by content.length
decreasing_by
  have : 0 < blockSize := by decide
  simp only [List.length_drop]
  omega

def trailer (content : Bytes) : Bytes :=
  littleEndian 4 (checksum content).toNat ++ littleEndian 4 (content.length % UInt32.size)

/-! ## Reading -/

def fromLittleEndian : Bytes → Nat
  | [] => 0
  | b :: bs => b.toNat + 256 * fromLittleEndian bs

/-- The content of stored blocks up to the final one, and what stands behind it. -/
def readBlocks (content : Bytes) : Bytes → Option (Bytes × Bytes)
  | kind :: l₀ :: l₁ :: c₀ :: c₁ :: rest =>
    let length := fromLittleEndian [l₀, l₁]
    if fromLittleEndian [c₀, c₁] ≠ blockSize - length ∨ rest.length < length then none
    else if kind = 1 then some (content ++ rest.take length, rest.drop length)
    else if kind = 0 then readBlocks (content ++ rest.take length) (rest.drop length)
    else none
  | _ => none
termination_by bytes => bytes.length
decreasing_by
  simp only [List.length_drop, List.length_cons]
  omega

/-- The content of a whole stream. -/
def decode (stream : Bytes) : Option Bytes :=
  if stream.take header.length = header then
    match readBlocks [] (stream.drop header.length) with
    | some (content, rest) => if rest = trailer content then some content else none
    | none => none
  else none

/-! ## Writing -/

structure Encoder (σ : Type) where
  sink : σ
  begun : Bool
  finished : Bool
  /-- Content not handed on yet. -/
  held : Bytes
  /-- All content so far. -/
  content : Bytes

namespace Encoder

variable {σ : Type}

def ofSink (sink : σ) : Encoder σ := ⟨sink, false, false, [], []⟩

variable [ByteSink σ]

/-- Writes on the sink below. -/
def put (bytes : Bytes) (e : Encoder σ) : Reply (Encoder σ) IoError Unit :=
  (ByteSink.writeAll bytes e.sink).mapState fun sink => { e with sink }

/-- Writes the header, unless it was written. -/
def begin (e : Encoder σ) : Reply (Encoder σ) IoError Unit :=
  if e.begun then .pure () e else (e.put header).bind fun _ e => .pure () { e with begun := true }

def write (bytes : Bytes) (e : Encoder σ) : Reply (Encoder σ) IoError Nat :=
  e.begin.bind fun _ e =>
    .pure bytes.length { e with held := e.held ++ bytes, content := e.content ++ bytes }

/-- Hands the content on and flushes the sink below. -/
def flush (e : Encoder σ) : Reply (Encoder σ) IoError Unit :=
  e.begin.bind fun _ e => (e.put (blocks false e.held)).bind fun _ e =>
    (ByteSink.flush e.sink).mapState fun sink => { e with sink, held := [] }

/-- Ends the stream; a second time there is nothing left to do. -/
def finish (e : Encoder σ) : Reply (Encoder σ) IoError Unit :=
  if e.finished then .pure () e
  else
    e.begin.bind fun _ e => (e.put (blocks true e.held)).bind fun _ e =>
      (e.put (trailer e.content)).bind fun _ e => .pure () { e with finished := true, held := [] }

/-- Acts on the sink below in place. -/
def onSink {α : Type} (action : σ → Reply σ IoError α) (e : Encoder σ) :
    Reply (Encoder σ) IoError α :=
  (action e.sink).mapState fun sink => { e with sink }

theorem write_patience_le (bytes : Bytes) (e : Encoder σ) :
    ByteSink.patience (e.write bytes).state.sink + (e.write bytes).outcome.interruptions
      ≤ ByteSink.patience e.sink := by
  unfold write begin put
  split
  · simp [Reply.pure, Reply.after, Outcome.interruptions]
  · have hle := ByteSink.writeAll_patience_le header e.sink
    rcases hr : ByteSink.writeAll header e.sink with ⟨outcome, sink, calls⟩
    simp only [hr] at hle
    cases outcome with
    | ok u => simpa [Reply.mapState, Reply.pure, Reply.after, Outcome.interruptions] using hle
    | error cause => simpa [Reply.mapState, Outcome.interruptions] using hle
    | crash message => simpa [Reply.mapState, Outcome.interruptions] using hle

instance : StreamEncoder (Encoder σ) where
  write := write
  flush := flush
  patience e := ByteSink.patience e.sink
  patience_le := write_patience_le
  finish := finish

end Encoder

end Gzip

end MessageFraming
