import MessageFraming.Chunk.Config
import MessageFraming.Counters
import MessageFraming.Decode.Profile
import MessageFraming.Lines.Reader
import MessageFraming.Record.Reader

/-!
# Settings and counters as text

The forms of the records that are kept as text. Settings of chunkers and line readers fall back to
their defaults field by field; profiles and counters have to be complete. A profile that was read
has its zeros raised, like any other.
-/

namespace MessageFraming

open Record

/-! ## Settings with defaults -/

def Chunk.Config.form : Form Chunk.Config where
  blank := {}
  fields :=
    [⟨"chunk_size", false, .count (·.chunkSize) fun chunkSize c => { c with chunkSize }⟩,
     ⟨"max_line_len", false,
        .count (·.maxLineLength) fun maxLineLength c => { c with maxLineLength }⟩]

def Chunk.Config.toText (c : Chunk.Config) : String := form.toText c

def Chunk.Config.ofText (text : String) : Except RecordError Chunk.Config := form.ofText text

def Lines.Config.form : Form Lines.Config where
  blank := {}
  fields :=
    [⟨"max_line_len", false,
        .count (·.maxLineLength) fun maxLineLength c => { c with maxLineLength }⟩,
     ⟨"skip_empty", false, .flag (·.skipEmpty) fun skipEmpty c => { c with skipEmpty }⟩]

def Lines.Config.toText (c : Lines.Config) : String := form.toText c

def Lines.Config.ofText (text : String) : Except RecordError Lines.Config := form.ofText text

/-! ## Complete records -/

def Profile.form : Form Profile where
  blank := .singleThreaded
  fields :=
    [⟨"worker_count", true, .count (·.workers) fun workers p => { p with workers }⟩,
     ⟨"inflight_chunks", true, .count (·.inflight) fun inflight p => { p with inflight }⟩]

def Profile.toText (p : Profile) : String := form.toText p

def Profile.ofText (text : String) : Except RecordError Profile := (form.ofText text).map raised

/-- A count that is read fits its word, since a larger numeral is no integer. -/
def Counters.form : Form Counters where
  blank := .zero
  fields :=
    [⟨"chunks", true, .count (·.chunks.toNat) fun n c => { c with chunks := .ofNat n }⟩,
     ⟨"frames", true, .count (·.frames.toNat) fun n c => { c with frames := .ofNat n }⟩,
     ⟨"bytes_raw", true, .count (·.rawBytes.toNat) fun n c => { c with rawBytes := .ofNat n }⟩,
     ⟨"bytes_payload", true,
       .count (·.payloadBytes.toNat) fun n c => { c with payloadBytes := .ofNat n }⟩]

def Counters.toText (c : Counters) : String := form.toText c

def Counters.ofText (text : String) : Except RecordError Counters := form.ofText text

end MessageFraming
