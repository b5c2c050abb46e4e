import MessageFraming.Proofs.Chunk.Failures
import MessageFraming.Proofs.Chunk.Fragmentation
import MessageFraming.Proofs.Decode.InOrder
import MessageFraming.Proofs.Decode.Soundness

/-!
# Parallel decoding is decoding in order

A pipeline on a chunker returns what the sequential decoder returns, errors included, whatever the
order in which its parts move.

The sequential decoder returns the first failure that it meets. A pipeline returns some failure. The
two agree for two reasons: all failures of chunks are alike, and a failure of the source is returned
only when every chunk in front of it has been decoded well.

* `Pipeline.Run.overlong_of_faulty`: a chunker numbers its chunks, so a collector stops only for an
  overlong line.
* `Pipeline.Run.refines`: what a finished run returns, and that decoding in order returns the same.
* `Pipeline.parallel_refines_inOrder`: the refinement, for every run and for a call.
-/

namespace MessageFraming

namespace Pipeline

/-- What a partial function keeps is found in order in what a total one makes of everything. -/
theorem filterMap_sublist_map {α β : Type} {f : α → Option β} {g : α → β} {l : List α}
    (h : ∀ x ∈ l, ∀ y, f x = some y → y = g x) : (l.filterMap f).Sublist (l.map g) := by
  induction l with
  | nil => exact .slnil
  | cons x xs ih =>
    have hrest := ih fun y hmem => h y (List.mem_cons_of_mem x hmem)
    cases hf : f x with
    | none =>
      rw [List.filterMap_cons_none hf, List.map_cons]
      exact hrest.cons (g x)
    | some y =>
      rw [List.filterMap_cons_some hf, List.map_cons, h x List.mem_cons_self y hf]
      exact hrest.cons_cons (g x)

/-- The decoder reports the indices that the chunks have. -/
theorem indices_le {events : List Event} (h : Follows Chunk.decoded events) :
    indices (reports events) ≤ (decodedChunks events).map (·.index) := by
  unfold indices reports decodedChunks
  rw [Multiset.filterMap_coe, List.filterMap_filterMap, Multiset.map_coe, List.map_map,
    Multiset.coe_le]
  refine (filterMap_sublist_map ?_).subperm
  -- a report has an index only if its chunk decoded well, and then it is the chunk's
  rintro ⟨chunk, outcome⟩ hmem i hi
  have houtcome := h chunk outcome (mem_decodings.mp hmem)
  rcases chunk.decoded_cases with ⟨-, herror⟩ | ⟨-, d, hok, hindex⟩
  · rw [houtcome, herror] at hi
    cases hi
  · rw [houtcome, hok] at hi
    cases hi
    exact hindex

variable {source : Source} {config : Chunk.Config} {chunker : Chunker} {profile : Profile}
  {events : List Event} {s : State Chunker}

/-- The chunks that a run has produced are a partition of what its chunker has read. -/
theorem Run.partitioned (h : Run profile chunker events s)
    (hchunker : Chunker.ofSource source config = .ok chunker) :
    ∃ c, Chunker.Partitioned source config (produced events) c := by
  obtain ⟨before, last, hemits, -, -⟩ := h.fed
  exact ⟨before, Chunker.partitioned_of_emits hchunker hemits⟩

/-- A chunker that has come to its end has handed out all its source, cut on line boundaries. -/
theorem Run.drained (h : Run profile chunker events s)
    (hchunker : Chunker.ofSource source config = .ok chunker) (hended : .fed (.ok none) ∈ events) :
    (produced events).flatMap (·.bytes) = source.upToEnd
      ∧ ∀ chunk ∈ (produced events).dropLast, Lines.Aligned chunk.bytes := by
  obtain ⟨before, last, hemits, hlast, -⟩ := h.fed
  rw [h.feedEnded_iff.mp hended] at hlast
  generalize s.feed = after at hlast
  cases hlast with
  | ended hnext =>
    obtain ⟨hbytes, hfront⟩ := (Chunker.partitioned_of_emits hchunker hemits).drained hnext
    exact ⟨hbytes, fun chunk hmem => Or.inr (hfront chunk hmem)⟩

/-- A chunk decodes unless it holds an over-long line, and that is all that can be wrong with it. -/
theorem Run.decoded_cases (h : Run profile chunker events s)
    (hchunker : Chunker.ofSource source config = .ok chunker) {chunk : Chunk}
    (hmem : chunk ∈ produced events) :
    chunk.HasOverlong ∧ chunk.decoded = .error (.frame (.lineTooLong config.maxLineLength))
      ∨ ¬ chunk.HasOverlong ∧ ∃ d, chunk.decoded = .ok d ∧ d.index = chunk.index := by
  obtain ⟨c, hpart⟩ := h.partitioned hchunker
  rw [← hpart.limits chunk hmem]
  exact chunk.decoded_cases

/-- A chunker numbers its chunks, so no index is refused, and a collector stops only for an overlong
line. -/
theorem Run.overlong_of_faulty (h : Run profile chunker events s)
    (hchunker : Chunker.ofSource source config = .ok chunker)
    (hdecode : Follows Chunk.decoded events) {e : StreamError}
    (hfaulty : Faulty (reports events) e) :
    (∃ chunk ∈ produced events, chunk.HasOverlong)
      ∧ e = .frame (.lineTooLong config.maxLineLength) := by
  cases hfaulty with
  | failed hmem =>
    obtain ⟨chunk, hdecoded⟩ := mem_reports_error hmem
    -- the chunk that failed is one of those that the chunker produced
    have hchunk : chunk ∈ decodedChunks events :=
      Multiset.mem_coe.mpr (List.mem_map_of_mem (mem_decodings.mpr hdecoded))
    have hproduced := Multiset.mem_coe.mp (Multiset.mem_of_le h.decodedChunks_le hchunk)
    have houtcome := hdecode _ _ hdecoded
    rcases h.decoded_cases hchunker hproduced with ⟨hlong, herror⟩ | ⟨-, d, hok, -⟩
    · rw [herror] at houtcome
      cases houtcome
      exact ⟨⟨chunk, hproduced, hlong⟩, rfl⟩
    · rw [hok] at houtcome
      cases houtcome
  | @doubled i hcount =>
    -- indices of produced chunks are all different, so nothing is reported twice
    obtain ⟨c, hpart⟩ := h.partitioned hchunker
    have hle := (indices_le hdecode).trans (Multiset.map_le_map h.decodedChunks_le)
    rw [Multiset.map_coe, hpart.indices] at hle
    have hnodup := Multiset.nodup_of_le hle (Multiset.coe_nodup.mpr List.nodup_range)
    have := Multiset.nodup_iff_count_le_one.mp hnodup i
    omega

/-- A chunker on a source without crashes does not crash, and neither does the decoder. -/
theorem Run.no_crash (h : Run profile chunker events s) (hsource : source.CrashFree)
    (hchunker : Chunker.ofSource source config = .ok chunker)
    (hdecode : Follows Chunk.decoded events) :
    (¬ ∃ message, .fed (.crash message) ∈ events)
      ∧ ¬ ∃ chunk message, (chunk, .crash message) ∈ decodings events := by
  constructor
  · rw [h.feedCrashed_iff]
    intro hs
    -- the feed is a chunker, and its source does not crash
    obtain ⟨before, last, hemits, hlast, -⟩ := h.fed
    have hcalm := Chunker.next_not_crash
      (Chunker.crashFree_of_emits (Chunker.crashFree_ofSource hsource hchunker) hemits)
    rw [hs] at hlast
    generalize s.feed = after at hlast
    cases hlast with
    | @crashed message after hnext =>
      rw [show Chunker.next _ = _ from hnext] at hcalm
      exact hcalm.1 message rfl
  · rintro ⟨chunk, message, hmem⟩
    -- decoding a chunk does not crash
    have houtcome := hdecode chunk _ (mem_decodings.mp hmem)
    rcases chunk.decoded_cases with ⟨-, herror⟩ | ⟨-, d, hok, -⟩
    · rw [herror] at houtcome
      cases houtcome
    · rw [hok] at houtcome
      cases houtcome

/-- Where the reports of all chunks have come in without a fault, no chunk held an
over-long line. -/
theorem Run.not_overlong_of_exhausted (h : Run profile chunker events s)
    (hchunker : Chunker.ofSource source config = .ok chunker)
    (hdecode : Follows Chunk.decoded events) {came : List DecodedChunk}
    {result : Except StreamError DecodedStream} (hexhausted : Exhausted events came result) :
    ¬ ∃ chunk ∈ produced events, chunk.HasOverlong := by
  rintro ⟨chunk, hmem, hlong⟩
  have hdecoded : chunk ∈ decodedChunks events := by
    rw [hexhausted.chunks]
    exact hmem
  -- its decoding would have been reported as an error
  obtain ⟨⟨c, outcome⟩, hcall, rfl⟩ := List.mem_map.mp (Multiset.mem_coe.mp hdecoded)
  rcases h.decoded_cases hchunker hmem with ⟨-, herror⟩ | ⟨hshort, -⟩
  · have houtcome := hdecode c outcome (mem_decodings.mp hcall)
    rw [herror] at houtcome
    have hreport : .error (.frame (.lineTooLong config.maxLineLength)) ∈ reports events := by
      refine Multiset.mem_coe.mpr (List.mem_filterMap.mpr ⟨_, hcall, ?_⟩)
      rw [houtcome]
      rfl
    rw [hexhausted.reports] at hreport
    obtain ⟨d, -, hd⟩ := List.mem_map.mp (Multiset.mem_coe.mp hreport)
    cases hd
  · exact hshort hlong

/-- A run that has decoded everything and come to the end of the source is complete, and its stream
is that of the chunks in the order of production. -/
theorem Run.complete_of_exhausted (h : Run profile chunker events s)
    (hchunker : Chunker.ofSource source config = .ok chunker)
    (hdecode : Follows Chunk.decoded events) (hfeed : ¬ ∃ message, .fed (.crash message) ∈ events)
    (hended : .fed (.ok none) ∈ events)
    (hchunks : ((decodings events).map (·.1)).Perm (produced events))
    {decoded : List DecodedChunk}
    (hdecoded : (produced events).map Chunk.decoded = decoded.map .ok) :
    Complete events (.ofChunks decoded) := by
  obtain ⟨c, hpart⟩ := h.partitioned hchunker
  refine ⟨hended, fun message hmem => hfeed ⟨message, hmem⟩, hchunks, decoded, ?_, ?_, rfl⟩
  · -- outcomes and chunks are permuted alike, since an outcome is told by its chunk
    have houtcomes : (decodings events).map (·.2)
        = (decodings events).map fun d => d.1.decoded := by
      refine List.map_congr_left fun d hmem => ?_
      exact hdecode d.1 d.2 (mem_decodings.mp hmem)
    have hperm := hchunks.map Chunk.decoded
    rw [List.map_map, hdecoded] at hperm
    rw [houtcomes]
    exact hperm
  · -- the chunks were numbered in order
    rw [← hpart.indices]
    exact Chunk.indices_of_decoded hdecoded

/-- What becomes of the chunks that were produced, if none of them has crashed anything. -/
inductive Answered (limit : Nat) (events : List Event) :
    Except StreamError DecodedStream → Prop where
  /-- Some chunk holds a line that is too long. -/
  | overlong (hlong : ∃ chunk ∈ produced events, chunk.HasOverlong) :
      Answered limit events (.error (.frame (.lineTooLong limit)))
  /-- No chunk does, and the chunker has failed behind them. -/
  | feedFailed {cause : ChunkError} (hshort : ¬ ∃ chunk ∈ produced events, chunk.HasOverlong)
      (hcause : .fed (.error cause) ∈ events) : Answered limit events (.error (.chunk cause))
  /-- No chunk does, and they are all there are: the stream is theirs, in the order of
  production. -/
  | complete {decoded : List DecodedChunk}
      (hshort : ¬ ∃ chunk ∈ produced events, chunk.HasOverlong) (hended : .fed (.ok none) ∈ events)
      (hdecoded : (produced events).map Chunk.decoded = decoded.map .ok) :
      Answered limit events (.ok (.ofChunks decoded))

/-- **A finished run returns what the sequential decoder returns.** Both meet the same chunks, and
of those in front of a failure both have all. -/
theorem Run.refines (h : Run profile chunker events s) (hsource : source.CrashFree)
    (hchunker : Chunker.ofSource source config = .ok chunker)
    (hdecode : Follows Chunk.decoded events) (hfinal : s.isFinal) :
    .ofExcept s.result = decodeInOrder chunker
      ∧ Answered config.maxLineLength events s.result := by
  obtain ⟨before, last, hemits, hlast, -⟩ := h.fed
  have hcases : ∀ chunk ∈ produced events, (∃ d, chunk.decoded = .ok d)
      ∨ chunk.decoded = .error (.frame (.lineTooLong config.maxLineLength)) := by
    intro chunk hmem
    rcases h.decoded_cases hchunker hmem with ⟨-, herror⟩ | ⟨-, d, hok, -⟩
    · exact Or.inr herror
    · exact Or.inl ⟨d, hok⟩
  have hoverlong : ∀ chunk ∈ produced events, chunk.HasOverlong ↔
      chunk.decoded = .error (.frame (.lineTooLong config.maxLineLength)) := by
    intro chunk hmem
    rcases h.decoded_cases hchunker hmem with ⟨hlong, herror⟩ | ⟨hshort, d, hok, -⟩
    · exact ⟨fun _ => herror, fun _ => hlong⟩
    · rw [hok]
      exact ⟨fun hlong => absurd hlong hshort, fun herror => by cases herror⟩
  obtain ⟨hfeed, hcalls⟩ := h.no_crash hsource hchunker hdecode
  rcases h.verdict hfinal hfeed hcalls with ⟨e, hfaulty, hresult⟩ | ⟨came, hexhausted⟩
  · -- some chunk has an overlong line; whichever it is, the first such chunk fails alike
    obtain ⟨⟨chunk, hmem, hlong⟩, rfl⟩ := h.overlong_of_faulty hchunker hdecode hfaulty
    rw [hresult]
    refine ⟨?_, .overlong ⟨chunk, hmem, hlong⟩⟩
    rw [decodeInOrder, decodeInOrderWith_of_error hemits hcases
      ⟨chunk, hmem, (hoverlong chunk hmem).mp hlong⟩]
    rfl
  · -- all chunks were decoded well, so both decoders have come to where the feed decides
    have hshort := h.not_overlong_of_exhausted hchunker hdecode hexhausted
    have hnone : ¬ ∃ chunk ∈ produced events,
        chunk.decoded = .error (.frame (.lineTooLong config.maxLineLength)) :=
      fun ⟨chunk, hmem, herror⟩ => hshort ⟨chunk, hmem, (hoverlong chunk hmem).mpr herror⟩
    obtain ⟨decoded, hdecoded⟩ := exists_decoded hcases hnone
    have hsequential := decodeInOrderWith_of_ok hemits hdecoded
    rcases hexhausted.result with ⟨cause, hcause, hresult⟩ | ⟨hended, -⟩
    · rw [hresult]
      refine ⟨?_, .feedFailed hshort hcause⟩
      rw [(h.feedFailed_iff cause).mp hcause] at hlast
      generalize s.feed = after at hlast
      cases hlast with
      | failed hnext =>
        rw [decodeInOrder, hsequential, decodeOnto_feedError hnext]
        rfl
    · have hresult := h.ok_of_complete hfinal (h.complete_of_exhausted hchunker hdecode hfeed hended
        (Multiset.coe_eq_coe.mp hexhausted.chunks) hdecoded)
      rw [hresult]
      refine ⟨?_, .complete hshort hended hdecoded⟩
      rw [h.feedEnded_iff.mp hended] at hlast
      generalize s.feed = after at hlast
      cases hlast with
      | ended hnext =>
        rw [decodeInOrder, hsequential, decodeOnto_end hnext]
        rfl

/-- **Parallel decoding is decoding in order.** Take a chunker whose source does not crash, and any
profile. Every finished run, whatever the interleaving, returns what the sequential decoder returns:

- the overlong line, if any chunk that was produced holds one;
- otherwise the error of the chunker, if there was one, and else the frames of all chunks in the
  order of production.

A call returns what one of these runs does, and so what the sequential decoder returns. -/
theorem parallel_refines_inOrder (hsource : source.CrashFree)
    (hchunker : Chunker.ofSource source config = .ok chunker) (profile : Profile) :
    (∀ events s, Run profile chunker events s → Follows Chunk.decoded events → s.isFinal →
        .ofExcept s.result = decodeInOrder chunker
          ∧ Answered config.maxLineLength events s.result)
      ∧ .ofExcept (decodeParallel chunker profile) = decodeInOrder chunker := by
  constructor
  · intro events s h hdecode hfinal
    exact h.refines hsource hchunker hdecode hfinal
  · obtain ⟨events, s, hrun, hdecode, hfinal, hresult⟩ :=
      exists_run_decodeParallelWith chunker profile Chunk.decoded
    rw [decodeParallel, hresult]
    exact (hrun.refines hsource hchunker hdecode hfinal).1

/-- Three chunks on two workers, with room for one chunk in each queue. Then a line that is too
long, and a source that fails. -/
theorem parallel_refines_inOrder_piecemealSource :
    (∃ events s, Run ⟨2, 1⟩ Chunk.piecemealChunker events s ∧ Follows Chunk.decoded events
        ∧ s.isFinal ∧ s.result = .ok ⟨[[97, 98], [99, 100]], ⟨3, 2, 7, 4⟩⟩
        ∧ .ofExcept s.result = decodeInOrder Chunk.piecemealChunker)
      ∧ (∃ events s, Run ⟨2, 1⟩ overlongChunker events s ∧ Follows Chunk.decoded events
        ∧ s.isFinal ∧ s.result = .error (.frame (.lineTooLong 2))
        ∧ .ofExcept s.result = decodeInOrder overlongChunker)
      ∧ decodeInOrder Chunker.brokenChunker
        = .error (.chunk (.readFailed (.plain .brokenPipe "gone"))) := by
  have hpiecemeal : Chunk.piecemealSource.CrashFree := by
    intro message hmem
    simp [Chunk.piecemealSource] at hmem
  have hoverlong : overlongSource.CrashFree := by
    intro message hmem
    simp [overlongSource] at hmem
  have hbroken : Chunker.brokenSource.CrashFree := by
    intro message hmem
    simp [Chunker.brokenSource] at hmem
  have hchunker : Chunker.ofSource Chunk.piecemealSource ⟨4, 2⟩ = .ok Chunk.piecemealChunker := rfl
  have hchunker' : Chunker.ofSource overlongSource ⟨4, 2⟩ = .ok overlongChunker := rfl
  have hchunker'' : Chunker.ofSource Chunker.brokenSource ⟨3, 10⟩ = .ok Chunker.brokenChunker := rfl
  -- a run that is well, one that meets an overlong line, and one whose source fails
  refine ⟨?_, ?_, ?_⟩
  · obtain ⟨hruns, -⟩ := parallel_refines_inOrder hpiecemeal hchunker ⟨2, 1⟩
    obtain ⟨events, s, hrun, hdecode, hfinal, hresult⟩ :=
      exists_run_decodeParallelWith Chunk.piecemealChunker ⟨2, 1⟩ Chunk.decoded
    refine ⟨events, s, hrun, hdecode, hfinal, ?_, (hruns events s hrun hdecode hfinal).1⟩
    rw [← hresult]
    decide +kernel
  · obtain ⟨hruns, -⟩ := parallel_refines_inOrder hoverlong hchunker' ⟨2, 1⟩
    obtain ⟨events, s, hrun, hdecode, hfinal, hresult⟩ :=
      exists_run_decodeParallelWith overlongChunker ⟨2, 1⟩ Chunk.decoded
    refine ⟨events, s, hrun, hdecode, hfinal, ?_, (hruns events s hrun hdecode hfinal).1⟩
    rw [← hresult]
    decide +kernel
  · obtain ⟨-, hcall⟩ := parallel_refines_inOrder hbroken hchunker'' ⟨1, 1⟩
    rw [← hcall]
    decide +kernel

end Pipeline

end MessageFraming
