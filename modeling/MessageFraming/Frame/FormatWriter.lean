import MessageFraming.Frame.Format
import MessageFraming.Frame.Writer

/-!
# Writing a wire format on a sink

A format writer writes the head of a frame in full and then the payload. It goes on to the next
state of its format whether the write succeeds or not, so what follows a torn frame is framed as
though that one were there.
-/

namespace MessageFraming

structure FormatWriter (f : WireFormat) (σ : Type) where
  sink : σ
  state : f.State

namespace FormatWriter

variable {f : WireFormat} {σ : Type}

def ofSink (sink : σ) : FormatWriter f σ := ⟨sink, f.start⟩

/-- Acts on the sink below in place. -/
def onSink {α : Type} (action : σ → Reply σ IoError α) (w : FormatWriter f σ) :
    Reply (FormatWriter f σ) IoError α :=
  (action w.sink).mapState fun sink => { w with sink }

variable [ByteSink σ]

/-- Writes a head and the payload behind it. -/
def writeParts (headStep : FrameError.Step) (head payload : Bytes) (sink : σ) :
    Reply σ FrameError Nat :=
  ((ByteSink.writeAll head sink).atStep headStep).bind fun _ sink =>
    ((ByteSink.writeAll payload sink).atStep .writePayload).map fun _ =>
      head.length + payload.length

def writeFrame (payload : Bytes) (w : FormatWriter f σ) : Reply (FormatWriter f σ) FrameError Nat :=
  (writeParts f.headStep (f.head w.state payload) payload w.sink).mapState fun sink =>
    ⟨sink, f.next w.state⟩

def flush (w : FormatWriter f σ) : Reply (FormatWriter f σ) FrameError Unit :=
  (w.onSink ByteSink.flush).atStep .flush

instance : FrameWriter (FormatWriter f σ) where
  writeFrame := writeFrame
  flush := flush

end FormatWriter

end MessageFraming
