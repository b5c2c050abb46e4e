import MessageFraming.Proofs.Decode.EndToEnd
import MessageFraming.Proofs.Lines.Accounting

/-!
# What the counters of a pipeline tell

A pipeline counts chunk by chunk and adds up in whatever order the workers finish. The sums account
for the input all the same: no byte is counted twice, at a boundary between two chunks or in a line
that is passed over, and none is left out.

* `DecodedStream.counters_ofChunks`: what chunks that decode well add up to.
* `Pipeline.Run.stream_of_ok`: a stream that is returned is made of the chunks that were produced.
* `Pipeline.Run.frames_of_ok`: so its frames are those of the input.
* `Pipeline.Accounts`, `Pipeline.Run.accounts`: and its counters account for every byte of it.
* `Pipeline.counters_account_for_input`: so it is for every run, and for what a call returns.
-/

namespace MessageFraming

/-- **Chunks, frames and bytes**, each modulo the size of a word. Induction on the chunks. -/
theorem DecodedStream.counters_ofChunks {chunks : List Chunk} {ds : List DecodedChunk}
    (h : chunks.map Chunk.decoded = ds.map .ok) :
    (ofChunks ds).counters = ⟨.ofNat chunks.length, .ofNat (ofChunks ds).frames.length,
      .ofNat (chunks.flatMap (·.bytes)).length, .ofNat (ofChunks ds).frames.flatten.length⟩ := by
  induction chunks generalizing ds with
  | nil =>
    rw [List.map_nil, eq_comm, List.map_eq_nil_iff] at h
    rw [h]
    rfl
  | cons chunk chunks ih =>
    cases ds with
    | nil => cases h
    | cons d ds =>
      rw [List.map_cons, List.map_cons, List.cons.injEq] at h
      -- the first chunk and the others are counted apart
      obtain ⟨hfirst, hrest⟩ := h
      have hcounters : (ofChunks (d :: ds)).counters = d.counters + (ofChunks ds).counters :=
        List.sum_cons
      have hframes : (ofChunks (d :: ds)).frames = d.frames ++ (ofChunks ds).frames := rfl
      rw [hcounters, hframes, ih hrest, (Chunk.of_decoded hfirst).2.2, List.flatMap_cons,
        List.flatten_append, List.length_append, List.length_append, List.length_append,
        List.length_cons, Counters.add_def, Nat.add_comm chunks.length]
      simp only [Counters.addChunk, Counters.zero, UInt64.zero_add, Chunk.size, UInt64.ofNat_add]
      rfl

namespace Pipeline

variable {source : Source} {input : Bytes} {config : Chunk.Config} {chunker : Chunker}
  {profile : Profile} {events : List Event} {s : State Chunker} {stream : DecodedStream}

/-- What is returned is the stream of the chunks that were produced, in that order. -/
theorem Run.stream_of_ok (h : Run profile chunker events s)
    (hchunker : Chunker.ofSource source config = .ok chunker)
    (hdecode : Follows Chunk.decoded events)
    (hfinal : s.isFinal) (hok : s.result = .ok stream) :
    .fed (.ok none) ∈ events
      ∧ ∃ ds : List DecodedChunk, (produced events).map Chunk.decoded = ds.map .ok
        ∧ stream = .ofChunks ds := by
  obtain ⟨hended, huncrashed, hchunks, inOrder, houtcomes, -⟩ := h.complete_of_ok hfinal hok
  -- every chunk was decoded, and its decoding is among the outcomes, which are all well
  have hall : ∀ chunk ∈ produced events, ∃ d, chunk.decoded = .ok d := by
    intro chunk hmem
    obtain ⟨⟨c, outcome⟩, hcall, rfl⟩ := List.mem_map.mp (hchunks.mem_iff.mpr hmem)
    obtain ⟨d, -, hd⟩ := List.mem_map.mp (houtcomes.mem_iff.mp (List.mem_map_of_mem hcall))
    exact ⟨d, (hdecode c outcome (mem_decodings.mp hcall)).symm.trans hd.symm⟩
  obtain ⟨ds, hds⟩ := Outcome.exists_map_ok hall
  -- so the run is complete with the decoded chunks in the order of the stream
  have hcomplete := h.complete_of_exhausted hchunker hdecode
    (fun ⟨message, hmem⟩ => huncrashed message hmem) hended hchunks hds
  rw [h.ok_of_complete hfinal hcomplete] at hok
  cases hok
  exact ⟨hended, ds, hds, rfl⟩

/-- Its frames are those of the input. -/
theorem Run.frames_of_ok (h : Run profile chunker events s)
    (hchunker : Chunker.ofSource source config = .ok chunker)
    (hdecode : Follows Chunk.decoded events)
    (hfinal : s.isFinal) (hok : s.result = .ok stream) :
    Lines.frames config.maxLineLength true source.upToEnd = .ok stream.frames := by
  obtain ⟨hended, ds, hds, rfl⟩ := h.stream_of_ok hchunker hdecode hfinal hok
  obtain ⟨c, hpart⟩ := h.partitioned hchunker
  obtain ⟨hbytes, haligned⟩ := h.drained hchunker hended
  rw [← hbytes]
  exact Chunk.frames_of_decoded hds hpart.limits haligned

/-- The counters of a stream account for every byte of its input. -/
structure Accounts (input : Bytes) (events : List Event) (stream : DecodedStream) : Prop where
  /-- The chunks are counted that were produced, and the frames that are returned. -/
  chunks : stream.counters.chunks.toNat = (produced events).length
  frames : stream.counters.frames.toNat = stream.frames.length
  /-- Payload bytes are those of the frames, and raw bytes those of the input. -/
  payloadBytes : stream.counters.payloadBytes.toNat = (stream.frames.map List.length).sum
  rawBytes : stream.counters.rawBytes.toNat = input.length
  /-- There are no more of the former than of the latter. -/
  payload_le : stream.counters.payloadBytes ≤ stream.counters.rawBytes
  /-- What is between them are the `\n`s of the input and the `\r`s at the ends of its lines. -/
  overhead : stream.counters.overhead.toNat
    = input.count newline + (Lines.split input).countP (Lines.EndsInReturn ·)

/-- **Its counters account for every byte**, if these can be counted in a word at all: there are no
more chunks than bytes, and no more frames. -/
theorem Run.accounts (h : Run profile chunker events s) (hsource : source.Brings input .endOfInput)
    (hchunker : Chunker.ofSource source config = .ok chunker) (hfits : input.length < UInt64.size)
    (hdecode : Follows Chunk.decoded events) (hfinal : s.isFinal) (hok : s.result = .ok stream) :
    Accounts input events stream := by
  obtain ⟨hended, ds, hds, rfl⟩ := h.stream_of_ok hchunker hdecode hfinal hok
  obtain ⟨c, hpart⟩ := h.partitioned hchunker
  have hframes := h.frames_of_ok hchunker hdecode hfinal hok
  have hbytes := (h.drained hchunker hended).1
  rw [hsource.upToEnd_eq] at hframes hbytes
  have hinput := Lines.length_eq_of_frames hframes
  have hcounters := DecodedStream.counters_ofChunks hds
  rw [hbytes] at hcounters
  -- every number to be counted is at most the length of the input
  have hchunks : (produced events).length ≤ input.length := by
    have hle := Lines.length_le_length_flatten (List.forall_mem_map.mpr hpart.nonempty)
    rw [List.length_map] at hle
    exact hle.trans (Nat.le_of_eq (congrArg List.length hbytes))
  have hfound := Lines.length_le_of_frames hframes
  have hword : ∀ n ≤ input.length, (UInt64.ofNat n).toNat = n := fun n hn =>
    UInt64.toNat_ofNat_of_lt' (Nat.lt_of_le_of_lt hn hfits)
  have hraw : (DecodedStream.ofChunks ds).counters.rawBytes.toNat = input.length := by
    rw [hcounters]
    exact hword _ (Nat.le_refl _)
  have hpayload : (DecodedStream.ofChunks ds).counters.payloadBytes.toNat
      = (DecodedStream.ofChunks ds).frames.flatten.length := by
    rw [hcounters]
    exact hword _ (by omega)
  exact
    { chunks := by
        rw [hcounters]
        exact hword _ hchunks
      frames := by
        rw [hcounters]
        exact hword _ (by omega)
      payloadBytes := hpayload.trans List.length_flatten
      rawBytes := hraw
      payload_le := by
        rw [UInt64.le_iff_toNat_le, hpayload, hraw]
        omega
      overhead := by
        rw [Counters.toNat_overhead, hpayload, hraw]
        omega }

/-- **The counters account for every byte of the input.** Whatever pieces the source hands its input
out in, whatever the settings and the profile, and in whatever order the parts of the pipeline move:
of a stream that is returned, the chunks are counted that were produced and the frames that are
returned, the raw bytes are those of the input and the payload bytes those of the frames, and the
difference are the `\n`s and the `\r`s at the ends of lines. The input is one whose bytes can be
counted in a word.

A call returns what one of these runs does. -/
theorem counters_account_for_input (hsource : source.Brings input .endOfInput)
    (hchunker : Chunker.ofSource source config = .ok chunker) (hfits : input.length < UInt64.size)
    (profile : Profile) :
    (∀ events s stream, Run profile chunker events s → Follows Chunk.decoded events → s.isFinal →
        s.result = .ok stream → Accounts input events stream)
      ∧ ∀ stream, decodeParallel chunker profile = .ok stream →
        ∃ events s, Run profile chunker events s ∧ Follows Chunk.decoded events ∧ s.isFinal
          ∧ s.result = .ok stream ∧ Accounts input events stream := by
  have hruns : ∀ events s stream, Run profile chunker events s → Follows Chunk.decoded events →
      s.isFinal → s.result = .ok stream → Accounts input events stream :=
    fun events s stream h hdecode hfinal hok => h.accounts hsource hchunker hfits hdecode hfinal hok
  refine ⟨hruns, fun stream hok => ?_⟩
  -- the call follows one of these runs
  obtain ⟨events, s, hrun, hdecode, hfinal, hresult⟩ :=
    exists_run_decodeParallelWith chunker profile Chunk.decoded
  have hstream : s.result = .ok stream := hresult.symm.trans hok
  exact ⟨events, s, hrun, hdecode, hfinal, hstream,
    hruns events s stream hrun hdecode hfinal hstream⟩

/-- Four lines, all but one with a `\r`: two of them are empty without it, the third has none, and
the last one is not terminated. What is behind the end of input is not looked at. -/
def returningSource : Source :=
  [.data [97, 98, 13], .fail (.plain .interrupted "signal"), .data [10, 13], .data [10, 10, 99, 13],
    .endOfInput, .data [100]]

def returningChunker : Chunker := ⟨some returningSource, ⟨4, 2⟩, Chunk.valid_fourBytes, [], 0⟩

/-- Nine bytes in three chunks, three of them in two frames: six are three `\n`s and three `\r`s. -/
theorem counters_account_for_input_returningSource :
    ∃ events s, Run ⟨2, 1⟩ returningChunker events s ∧ Follows Chunk.decoded events ∧ s.isFinal
      ∧ s.result = .ok ⟨[[97, 98], [99]], ⟨3, 2, 9, 3⟩⟩
      ∧ (produced events).length = 3
      ∧ (Counters.overhead ⟨3, 2, 9, 3⟩).toNat = 6
      ∧ (Lines.split [97, 98, 13, 10, 13, 10, 10, 99, 13]).countP (Lines.EndsInReturn ·) = 3 := by
  have hsource : returningSource.Brings [97, 98, 13, 10, 13, 10, 10, 99, 13] .endOfInput :=
    .data (.interrupted rfl (.data (.data .ended)))
  have hchunker : Chunker.ofSource returningSource ⟨4, 2⟩ = .ok returningChunker := rfl
  have hok : decodeParallel returningChunker ⟨2, 1⟩ = .ok ⟨[[97, 98], [99]], ⟨3, 2, 9, 3⟩⟩ := by
    decide +kernel
  obtain ⟨-, hcall⟩ := counters_account_for_input hsource hchunker (by decide) ⟨2, 1⟩
  obtain ⟨events, s, hrun, hdecode, hfinal, hresult, haccounts⟩ := hcall _ hok
  -- of the six bytes that are no payload, three are line feeds
  have hnewlines : List.count newline [97, 98, 13, 10, 13, 10, 10, 99, 13] = 3 := by decide
  have hoverhead := haccounts.overhead
  rw [hnewlines] at hoverhead
  have hsix : (Counters.overhead ⟨3, 2, 9, 3⟩).toNat = 6 := by decide
  refine ⟨events, s, hrun, hdecode, hfinal, hresult, haccounts.chunks.symm, hsix, ?_⟩
  exact Nat.add_left_cancel (hoverhead.symm.trans hsix)

end Pipeline

end MessageFraming
