import MessageFraming.Proofs.Chunk.Partition
import MessageFraming.Proofs.Cursor.Drain
import MessageFraming.Proofs.Lines.Reading

/-!
# Reading chunk by chunk

Whoever reads the chunks of a stream one after another sees what a reader of the whole stream sees.
The two read through different buffers and check the line limit at different places, so they are not
compared with each other: both are compared with the grammar of lines.

* `Chunk.decode_eq_frames`: a chunk holds the frames of its bytes.
* `Chunk.drain_readers`: chunks that are cut on line boundaries hold the frames of their bytes taken
  together. Induction on the chunks, by `Lines.frames_append`.
* `Chunk.drain_readers_eq_drain_stream`: so chunked and streamed reading agree.
-/

namespace MessageFraming

namespace Chunk

/-- The reader of a chunk has the bytes of the chunk to read. -/
theorem reader_delivers (c : Chunk) : c.reader.Delivers c.bytes :=
  Lines.Reader.delivers_ofSource (Source.delivers_data c.bytes) _

/-- Decoding a chunk gives the frames of its bytes. -/
theorem decode_eq_frames (c : Chunk) : c.decode = Lines.frames c.maxLineLength true c.bytes :=
  Lines.Reader.drain_delivers c.reader_delivers

/-- The readers of chunks, one after another, give the frames of all their bytes. Only the last
chunk may end inside a line. -/
theorem drain_readers {chunks : List Chunk} {limit : Nat}
    (hlimit : ∀ chunk ∈ chunks, chunk.maxLineLength = limit)
    (haligned : ∀ chunk ∈ chunks.dropLast, Lines.Aligned chunk.bytes) :
    (Cursor.drain (⟨chunks.map reader⟩ : Sequence Lines.Reader)).1
      = Lines.frames limit true (chunks.flatMap (·.bytes)) := by
  induction chunks with
  | nil =>
    rw [List.map_nil, Cursor.drain_sequence_nil, List.flatMap_nil, Lines.frames_nil]
  | cons chunk chunks ih =>
    have hfirst : (Cursor.drain chunk.reader).1 = Lines.frames limit true chunk.bytes := by
      rw [← hlimit chunk List.mem_cons_self]
      exact chunk.decode_eq_frames
    have hrest := ih (fun c hmem => hlimit c (List.mem_cons_of_mem chunk hmem))
    rw [List.map_cons, Cursor.drain_sequence_cons, hfirst, List.flatMap_cons]
    cases chunks with
    | nil =>
      -- nothing stands behind the last chunk, so it needs no boundary
      rw [List.map_nil, Cursor.drain_sequence_nil, List.flatMap_nil, List.append_nil]
      cases Lines.frames limit true chunk.bytes with
      | ok frames => rw [Outcome.bind_ok, Outcome.map_ok, List.append_nil]
      | error e => rfl
      | crash message => rfl
    | cons chunk' chunks =>
      rw [List.dropLast_cons_cons] at haligned
      rw [Lines.frames_append (haligned chunk List.mem_cons_self),
        hrest fun c hmem => haligned c (List.mem_cons_of_mem chunk hmem)]

/-- **Chunked reading is streamed reading.** Let two sources deliver the same input, each with cuts
and interruptions of its own. Where draining a chunker on the one succeeds, the readers of its
chunks give together what a single reader on the other gives: the same frames in the same order, or
on both sides the error that a line is longer than the limit. -/
theorem drain_readers_eq_drain_stream {source whole : Source} {input : Bytes} {config : Config}
    {chunker last : Chunker} {chunks : List Chunk} (hsource : source.Delivers input)
    (hwhole : whole.Delivers input) (hchunker : Chunker.ofSource source config = .ok chunker)
    (hdrain : ChunkFeed.drain chunker = (.ok chunks, last)) :
    (Cursor.drain (⟨chunks.map reader⟩ : Sequence Lines.Reader)).1
        = (Cursor.drain (Lines.Reader.ofSource whole ⟨config.maxLineLength, true⟩)).1
      ∧ ((Cursor.drain (⟨chunks.map reader⟩ : Sequence Lines.Reader)).1
          = .error (.lineTooLong config.maxLineLength)
        ∨ ∃ frames,
          (Cursor.drain (⟨chunks.map reader⟩ : Sequence Lines.Reader)).1 = .ok frames) := by
  obtain ⟨s, hrun, hend⟩ := ChunkFeed.drain_emits hdrain
  have hpart := Chunker.partitioned_of_emits hchunker hrun
  obtain ⟨hbytes, hfront⟩ := hpart.drained hend
  -- both drains are compared with the grammar of the whole input
  have hchunked : (Cursor.drain (⟨chunks.map reader⟩ : Sequence Lines.Reader)).1
      = Lines.frames config.maxLineLength true input := by
    rw [drain_readers hpart.limits fun chunk hmem => Or.inr (hfront chunk hmem), hbytes,
      hsource.upToEnd_eq]
  have hstreamed : (Cursor.drain (Lines.Reader.ofSource whole ⟨config.maxLineLength, true⟩)).1
      = Lines.frames config.maxLineLength true input :=
    Lines.Reader.drain_delivers (Lines.Reader.delivers_ofSource hwhole _)
  rw [hchunked, hstreamed]
  refine ⟨rfl, ?_⟩
  rcases Lines.frames_cases config.maxLineLength true input with ⟨-, herror⟩ | ⟨-, hok⟩
  · exact Or.inl herror
  · exact Or.inr hok

/-- The same three lines twice, the second of them empty: in pieces and interrupted, and whole. The
chunker cuts the pieces into windows of four bytes. -/
def piecemealSource : Source :=
  [.data [97, 98, 13], .fail (.plain .interrupted "signal"), .data [10, 10, 99], .data [100]]

def wholeSource : Source := [.data [97, 98, 13, 10, 10, 99, 100], .endOfInput]

theorem valid_fourBytes : Config.Valid ⟨4, 2⟩ := by decide

def piecemealChunker : Chunker := ⟨some piecemealSource, ⟨4, 2⟩, valid_fourBytes, [], 0⟩

def piecemealChunks : List Chunk :=
  [⟨0, [97, 98, 13, 10], 2⟩, ⟨1, [10], 2⟩, ⟨2, [99, 100], 2⟩]

/-- Three chunks of a source in pieces give the lines that a reader of the whole gives. -/
theorem drain_readers_piecemealSource :
    (ChunkFeed.drain piecemealChunker).1 = .ok piecemealChunks
      ∧ (Cursor.drain (⟨piecemealChunks.map reader⟩ : Sequence Lines.Reader)).1
        = (Cursor.drain (Lines.Reader.ofSource wholeSource ⟨2, true⟩)).1
      ∧ (Cursor.drain (⟨piecemealChunks.map reader⟩ : Sequence Lines.Reader)).1
        = .ok [[97, 98], [99, 100]] := by
  have hsource : piecemealSource.Delivers [97, 98, 13, 10, 10, 99, 100] :=
    .data (.interrupted rfl (.data (.data .nil)))
  have hwhole : wholeSource.Delivers [97, 98, 13, 10, 10, 99, 100] := .data (.ended .nil)
  have hchunker : Chunker.ofSource piecemealSource ⟨4, 2⟩ = .ok piecemealChunker := rfl
  have hdrain : (ChunkFeed.drain piecemealChunker).1 = .ok piecemealChunks := by decide +kernel
  obtain ⟨hsame, -⟩ :=
    drain_readers_eq_drain_stream hsource hwhole hchunker (Prod.ext hdrain rfl)
  exact ⟨hdrain, hsame, by decide +kernel⟩

end Chunk

end MessageFraming
