import MessageFraming.Proofs.Chunk.Streaming
import MessageFraming.Proofs.Decode.Reassembly

/-!
# Decoding in order

The sequential decoder along what a feed hands out.

* `decodeInOrderWith_of_ok`: behind chunks that decode well it stands at the stream they make up.
* `decodeInOrderWith_of_error`: it returns the first failure.
* `Chunk.decoded_cases`: the decoder of line-oriented chunks fails exactly on overlong lines, and
  always in the same way.
-/

namespace MessageFraming

/-! ## One step -/

section Steps

variable {σ : Type} [FiniteChunkFeed σ] {decode : Chunk → Outcome StreamError DecodedChunk}
  {stream : DecodedStream} {feed rest : σ}

theorem decodeOnto_ok {chunk : Chunk} {decoded : DecodedChunk}
    (hnext : ChunkFeed.next feed = (.ok (some chunk), rest))
    (hdecode : decode chunk = .ok decoded) :
    decodeOnto decode stream feed = decodeOnto decode (stream.append decoded) rest := by
  rw [decodeOnto]
  split <;> rename_i hnext' <;> rw [hnext] at hnext' <;> cases hnext'
  rw [hdecode]

theorem decodeOnto_error {chunk : Chunk} {e : StreamError}
    (hnext : ChunkFeed.next feed = (.ok (some chunk), rest)) (hdecode : decode chunk = .error e) :
    decodeOnto decode stream feed = .error e := by
  rw [decodeOnto]
  split <;> rename_i hnext' <;> rw [hnext] at hnext' <;> cases hnext'
  rw [hdecode]

theorem decodeOnto_end (hnext : ChunkFeed.next feed = (.ok none, rest)) :
    decodeOnto decode stream feed = .ok stream := by
  rw [decodeOnto]
  split <;> rename_i hnext' <;> rw [hnext] at hnext' <;> cases hnext'

theorem decodeOnto_feedError {e : ChunkError} (hnext : ChunkFeed.next feed = (.error e, rest)) :
    decodeOnto decode stream feed = .error (.chunk e) := by
  rw [decodeOnto]
  split <;> rename_i hnext' <;> rw [hnext] at hnext' <;> cases hnext'
  rfl

end Steps

/-! ## Many steps -/

section Runs

variable {σ : Type} [FiniteChunkFeed σ] {decode : Chunk → Outcome StreamError DecodedChunk}
  {feed state : σ} {chunks : List Chunk}

/-- Chunks that decode well are behind the decoder, and their stream is in its hands. Induction on
what the feed has handed out. -/
theorem decodeInOrderWith_of_ok (h : ChunkFeed.Emits feed chunks state)
    {decoded : List DecodedChunk} (hdecode : chunks.map decode = decoded.map .ok) :
    decodeInOrderWith feed decode = decodeOnto decode (.ofChunks decoded) state := by
  induction h generalizing decoded with
  | start =>
    rw [List.map_nil, eq_comm, List.map_eq_nil_iff] at hdecode
    rw [hdecode, DecodedStream.ofChunks_nil]
    rfl
  | @next chunks chunk s s' _ hnext ih =>
    -- the last chunk has become the last of `decoded`
    rw [List.map_append, List.map_singleton, eq_comm, List.map_eq_append_iff] at hdecode
    obtain ⟨front, last, rfl, hfront, hlast⟩ := hdecode
    obtain ⟨d, rfl, hd⟩ := List.map_eq_singleton_iff.mp hlast
    rw [ih hfront.symm, decodeOnto_ok hnext hd.symm, DecodedStream.ofChunks_concat]

/-- Where none fails, the decoded chunks are a list. -/
theorem exists_decoded {e : StreamError}
    (h : ∀ chunk ∈ chunks, (∃ d, decode chunk = .ok d) ∨ decode chunk = .error e)
    (hnone : ¬ ∃ chunk ∈ chunks, decode chunk = .error e) :
    ∃ decoded : List DecodedChunk, chunks.map decode = decoded.map .ok := by
  induction chunks with
  | nil => exact ⟨[], rfl⟩
  | cons chunk chunks ih =>
    obtain ⟨decoded, hdecoded⟩ := ih (fun c hmem => h c (List.mem_cons_of_mem chunk hmem))
      fun ⟨c, hmem, herror⟩ => hnone ⟨c, List.mem_cons_of_mem chunk hmem, herror⟩
    rcases h chunk List.mem_cons_self with ⟨d, hd⟩ | herror
    · exact ⟨d :: decoded, by rw [List.map_cons, List.map_cons, hd, hdecoded]⟩
    · exact absurd ⟨chunk, List.mem_cons_self, herror⟩ hnone

/-- If all failures are alike, it does not matter how many there are and in which chunks. -/
theorem decodeInOrderWith_of_error (h : ChunkFeed.Emits feed chunks state) {e : StreamError}
    (hall : ∀ chunk ∈ chunks, (∃ d, decode chunk = .ok d) ∨ decode chunk = .error e)
    (hsome : ∃ chunk ∈ chunks, decode chunk = .error e) :
    decodeInOrderWith feed decode = .error e := by
  induction h with
  | start =>
    obtain ⟨chunk, hmem, -⟩ := hsome
    cases hmem
  | @next chunks chunk s s' hemits hnext ih =>
    have hbefore : ∀ c ∈ chunks, (∃ d, decode c = .ok d) ∨ decode c = .error e :=
      fun c hmem => hall c (List.mem_append_left [chunk] hmem)
    by_cases hearlier : ∃ c ∈ chunks, decode c = .error e
    · exact ih hbefore hearlier
    · -- the chunk just handed out is the first to fail
      obtain ⟨decoded, hdecoded⟩ := exists_decoded hbefore hearlier
      obtain ⟨c, hmem, herror⟩ := hsome
      rcases List.mem_append.mp hmem with hmem | hmem
      · exact absurd ⟨c, hmem, herror⟩ hearlier
      · rw [List.mem_singleton.mp hmem] at herror
        rw [decodeInOrderWith_of_ok hemits hdecoded, decodeOnto_error hnext herror]

end Runs

/-! ## Chunks of lines -/

namespace Chunk

/-- A line of the chunk is longer than its limit. -/
def HasOverlong (c : Chunk) : Prop :=
  ∃ line ∈ Lines.split c.bytes, Lines.Overlong c.maxLineLength line

/-- Decoding a chunk fails on an overlong line, and otherwise gives frames under its index. -/
theorem decoded_cases (c : Chunk) :
    c.HasOverlong ∧ c.decoded = .error (.frame (.lineTooLong c.maxLineLength))
      ∨ ¬ c.HasOverlong ∧ ∃ d, c.decoded = .ok d ∧ d.index = c.index := by
  unfold decoded
  rw [decode_eq_frames]
  rcases Lines.frames_cases c.maxLineLength true c.bytes with ⟨hlong, herror⟩ | ⟨hshort, found, hok⟩
  · rw [herror]
    exact Or.inl ⟨hlong, rfl⟩
  · rw [hok]
    exact Or.inr ⟨hshort, _, rfl, rfl⟩

/-- A decoded chunk holds the frames of its chunk, and keeps its index and counts. -/
theorem of_decoded {c : Chunk} {d : DecodedChunk} (h : c.decoded = .ok d) :
    c.decode = .ok d.frames ∧ d.index = c.index
      ∧ d.counters = Counters.zero.addChunk c.size d.frames := by
  unfold decoded at h
  cases hdecode : c.decode with
  | ok frames =>
    rw [hdecode] at h
    cases h
    exact ⟨rfl, rfl, rfl⟩
  | error e =>
    rw [hdecode] at h
    cases h
  | crash message =>
    rw [hdecode] at h
    cases h

/-- Decoding keeps the indices, so a row of decoded chunks has those of the chunks. -/
theorem indices_of_decoded {chunks : List Chunk} {ds : List DecodedChunk}
    (h : chunks.map decoded = ds.map .ok) : ds.map (·.index) = chunks.map (·.index) := by
  induction chunks generalizing ds with
  | nil =>
    rw [List.map_nil, eq_comm, List.map_eq_nil_iff] at h
    rw [h]
    rfl
  | cons chunk chunks ih =>
    cases ds with
    | nil => cases h
    | cons d ds =>
      rw [List.map_cons, List.map_cons, List.cons.injEq] at h
      obtain ⟨hfirst, hrest⟩ := h
      rw [List.map_cons, List.map_cons, ih hrest, (of_decoded hfirst).2.1]

end Chunk

end MessageFraming
