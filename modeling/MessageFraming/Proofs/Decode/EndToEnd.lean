import MessageFraming.Proofs.Chunk.Boundaries
import MessageFraming.Proofs.Decode.Refinement
import MessageFraming.Proofs.Lines.RoundTrip

/-!
# From a writer of lines to a parallel decoder

What a writer puts on a stream as lines comes out of a pipeline again, through the writer's
separators, the windows of a chunker, and decoders that finish in any order.

* `Chunk.frames_of_decoded`: chunks that decode well make up the frames of their bytes.
* `Pipeline.Run.frames_of_fits`: where all lines fit a chunk and the limit, a pipeline returns the
  frames of its input.
* `Pipeline.written_lines_arrive`: so the payloads that were written are what is returned.
-/

namespace MessageFraming

/-- Calls that all succeed give a list of values. -/
theorem Outcome.exists_map_ok {α β ε : Type} {f : α → Outcome ε β} {xs : List α}
    (h : ∀ x ∈ xs, ∃ y, f x = .ok y) : ∃ ys : List β, xs.map f = ys.map .ok := by
  induction xs with
  | nil => exact ⟨[], rfl⟩
  | cons x xs ih =>
    obtain ⟨⟨y, hy⟩, hrest⟩ := List.forall_mem_cons.mp h
    obtain ⟨ys, hys⟩ := ih hrest
    exact ⟨y :: ys, by rw [List.map_cons, List.map_cons, hy, hys]⟩

namespace Chunk

/-- **Chunks that decode well make up the frames of their bytes**, if only the last one may end
inside a line. Induction on the chunks. -/
theorem frames_of_decoded {chunks : List Chunk} {ds : List DecodedChunk} {limit : Nat}
    (h : chunks.map decoded = ds.map .ok) (hlimit : ∀ chunk ∈ chunks, chunk.maxLineLength = limit)
    (haligned : ∀ chunk ∈ chunks.dropLast, Lines.Aligned chunk.bytes) :
    Lines.frames limit true (chunks.flatMap (·.bytes)) = .ok (ds.flatMap (·.frames)) := by
  induction chunks generalizing ds with
  | nil =>
    rw [List.map_nil, eq_comm, List.map_eq_nil_iff] at h
    rw [h, List.flatMap_nil, Lines.frames_nil]
    rfl
  | cons chunk chunks ih =>
    cases ds with
    | nil => cases h
    | cons d ds =>
      rw [List.map_cons, List.map_cons, List.cons.injEq] at h
      obtain ⟨hfirst, hrest⟩ := h
      have hframes : Lines.frames limit true chunk.bytes = .ok d.frames := by
        rw [← hlimit chunk List.mem_cons_self, ← chunk.decode_eq_frames]
        exact (of_decoded hfirst).1
      have hlater := ih hrest fun c hmem => hlimit c (List.mem_cons_of_mem chunk hmem)
      rw [List.flatMap_cons, List.flatMap_cons]
      cases chunks with
      | nil =>
        -- nothing stands behind the last chunk, so it needs no boundary
        rw [List.map_nil, eq_comm, List.map_eq_nil_iff] at hrest
        rw [hrest, List.flatMap_nil, List.flatMap_nil, List.append_nil, List.append_nil, hframes]
      | cons chunk' chunks =>
        rw [List.dropLast_cons_cons] at haligned
        rw [Lines.frames_append (haligned chunk List.mem_cons_self), hframes,
          hlater fun c hmem => haligned c (List.mem_cons_of_mem chunk hmem)]
        rfl

end Chunk

namespace Pipeline

/-! ## Frames of the input -/

section

variable {source : Source} {input : Bytes} {config : Chunk.Config} {chunker : Chunker}
  {profile : Profile} {events : List Event} {s : State Chunker}

/-- **A pipeline returns the frames of its input**, if every line fits a chunk and the limit. -/
theorem Run.frames_of_fits (h : Run profile chunker events s) (hfinal : s.isFinal)
    (hdecode : Follows Chunk.decoded events)
    (hchunker : Chunker.ofSource source config = .ok chunker) (hsource : source.Delivers input)
    (hfits : ∀ line ∈ Lines.split input, line.length ≤ config.chunkSize)
    (hshort : ∀ line ∈ Lines.split input, ¬ Lines.Overlong config.maxLineLength line) :
    ∃ frames, Lines.frames config.maxLineLength true input = .ok frames
      ∧ s.result.map (·.frames) = .ok frames := by
  obtain ⟨before, last, hemits, hlast, -⟩ := h.fed
  have hpart := Chunker.partitioned_of_emits hchunker hemits
  have hinput := hsource.upToEnd_eq
  have hfree := Chunker.failureFree_of_emits
    (Chunker.failureFree_ofSource hsource.brings hchunker) hemits
  -- the feed has not failed, since every line fits a chunk
  have hfed : ¬ ∃ cause, .fed (.error cause) ∈ events := by
    rintro ⟨cause, hcause⟩
    rw [(h.feedFailed_iff cause).mp hcause] at hlast
    generalize s.feed = after at hlast
    cases hlast with
    | failed hnext => exact hpart.next_ne_error hfree (hinput ▸ hfits) hnext
  -- and no chunk holds a line that is too long, since its lines are lines of the input
  have hlines : ¬ ∃ chunk ∈ produced events, chunk.HasOverlong := by
    rintro ⟨chunk, hmem, line, hline, hlong⟩
    rw [hpart.limits chunk hmem] at hlong
    exact hshort line (hinput ▸ hpart.mem_split hmem hline) hlong
  obtain ⟨hfeed, hcalls⟩ := h.no_crash hsource.crashFree hchunker hdecode
  -- what is left is that all chunks were decoded
  rcases h.verdict hfinal hfeed hcalls with ⟨e, hfaulty, -⟩ | ⟨came, hexhausted⟩
  · exact absurd (h.overlong_of_faulty hchunker hdecode hfaulty).1 hlines
  · obtain ⟨hended, -⟩ := hexhausted.result.resolve_left fun ⟨cause, hcause, _⟩ =>
      hfed ⟨cause, hcause⟩
    have hok : ∀ chunk ∈ produced events, ∃ d, chunk.decoded = .ok d := by
      intro chunk hmem
      rcases h.decoded_cases hchunker hmem with ⟨hlong, -⟩ | ⟨-, d, hd, -⟩
      · exact absurd ⟨chunk, hmem, hlong⟩ hlines
      · exact ⟨d, hd⟩
    obtain ⟨decoded, hdecoded⟩ := Outcome.exists_map_ok hok
    have hresult := h.ok_of_complete hfinal (h.complete_of_exhausted hchunker hdecode hfeed hended
      (Multiset.coe_eq_coe.mp hexhausted.chunks) hdecoded)
    -- their frames are those of the whole input, since chunks end on line boundaries
    obtain ⟨hbytes, haligned⟩ := h.drained hchunker hended
    refine ⟨decoded.flatMap (·.frames), ?_, by rw [hresult]; rfl⟩
    rw [← hinput, ← hbytes]
    exact Chunk.frames_of_decoded hdecoded hpart.limits haligned

end

/-! ## Lines that were written -/

section

variable {payloads : List Bytes} {config : Chunk.Config} {source : Source}

/-- Whoever has delivered lines to a pipeline finds their payloads in its result. -/
theorem Reachable.payloads_of_isFinal {chunker : Chunker} {profile : Profile} {s : State Chunker}
    (h : Reachable ⟨Chunk.decoded, profile⟩ chunker s) (hfinal : s.isFinal)
    (hchunker : Chunker.ofSource source config = .ok chunker)
    (hsource : source.Delivers (Lines.format.encode payloads))
    (hclean : ∀ payload ∈ payloads, newline ∉ payload)
    (hkept : ∀ payload ∈ payloads, payload.getLast? ≠ some carriageReturn)
    (hfits : ∀ payload ∈ payloads, payload.length ≤ config.chunkSize)
    (hshort : ∀ payload ∈ payloads, payload.length ≤ config.maxLineLength) :
    s.result.map (·.frames) = .ok (payloads.filter fun payload => !payload.isEmpty) := by
  -- the lines of the wire are payloads
  have hlines : ∀ line ∈ Lines.split (Lines.format.encode payloads), line ∈ payloads := by
    rw [Lines.split_encode hclean]
    exact fun line hline => Lines.shown_subset payloads hline
  have hlimit : ∀ line ∈ Lines.split (Lines.format.encode payloads),
      ¬ Lines.Overlong config.maxLineLength line := by
    intro line hline
    have hmem := hlines line hline
    rw [Lines.Overlong, (Lines.strip_eq_self_iff line).mpr (hkept line hmem)]
    exact Nat.not_lt.mpr (hshort line hmem)
  obtain ⟨events, hrun, hdecode⟩ := reachable_iff.mp h
  -- so the result is what a reader of the whole wire gives
  obtain ⟨frames, hframes, hresult⟩ := hrun.frames_of_fits hfinal hdecode hchunker hsource
    (fun line hline => hfits line (hlines line hline)) hlimit
  rw [Lines.frames_encode_skipping hclean hkept hshort] at hframes
  cases hframes
  exact hresult

/-- **What was written is what is returned.** Let a writer of lines put payloads on a sink that
accepts what comes, and let a source deliver what it left there, in any pieces. A chunker on that
source, and any profile: whatever the order in which the parts of the pipeline move, the call
returns, and what it returns are the payloads that have bytes, in the order in which they were
written.

No payload holds a `\n` or ends with `\r`, and none is longer than a chunk or than the limit. A
payload may be just as long as a chunk, wherever the windows of the chunker fall. -/
theorem written_lines_arrive {σ : Type} [ByteSink σ] [AcceptingSink σ] {sink : σ}
    (hsink : AcceptingSink.Accepts sink) (hempty : AcceptingSink.data sink = [])
    (hvalid : config.Valid) (hclean : ∀ payload ∈ payloads, newline ∉ payload)
    (hkept : ∀ payload ∈ payloads, payload.getLast? ≠ some carriageReturn)
    (hfits : ∀ payload ∈ payloads, payload.length ≤ config.chunkSize)
    (hshort : ∀ payload ∈ payloads, payload.length ≤ config.maxLineLength)
    (hsource : source.Delivers (AcceptingSink.data
      (FrameWriter.writeFrames payloads (.ofSink sink : FormatWriter Lines.format σ)).state.sink))
    (profile : Profile) :
    ∃ chunker, Chunker.ofSource source config = .ok chunker
      ∧ (∀ s, Reachable ⟨Chunk.decoded, profile⟩ chunker s → s.isFinal →
        s.result.map (·.frames) = .ok (payloads.filter fun payload => !payload.isEmpty))
      ∧ (∀ path, MaximalRun profile chunker path →
        (∀ m s, path m = some s → Reachable ⟨Chunk.decoded, profile⟩ chunker s) →
          ∃ m s, path m = some s ∧ (∀ k, m < k → path k = none) ∧ s.isFinal
            ∧ s.result.map (·.frames) = .ok (payloads.filter fun payload => !payload.isEmpty))
      ∧ (decodeParallel chunker profile).map (·.frames)
        = .ok (payloads.filter fun payload => !payload.isEmpty) := by
  obtain ⟨-, hdata⟩ := FormatWriter.writeFrames_ofSink (f := Lines.format) payloads hsink hempty
  rw [hdata] at hsource
  obtain ⟨chunker, hchunker⟩ : ∃ chunker, Chunker.ofSource source config = .ok chunker :=
    ⟨_, Chunker.ofSource_valid source hvalid⟩
  have hresult : ∀ s, Reachable ⟨Chunk.decoded, profile⟩ chunker s → s.isFinal →
      s.result.map (·.frames) = .ok (payloads.filter fun payload => !payload.isEmpty) :=
    fun s hs hfinal => hs.payloads_of_isFinal hfinal hchunker hsource hclean hkept hfits hshort
  refine ⟨chunker, hchunker, hresult, fun path hpath hreach => ?_, ?_⟩
  · -- a chunker has finitely many chunks to give, so the run comes to an end
    obtain ⟨n, hfeed⟩ := ChunkFeed.exists_endsAfter chunker
    obtain ⟨decode, hfirst⟩ := hpath.first
    obtain ⟨m, events, s, -, hs, -, hfinal, hover⟩ := hpath.ends_from hfeed hfirst (.start decode)
    exact ⟨m, s, hs, fun k hk => hpath.over_of_le hover hk, hfinal,
      hresult s (hreach m s hs) hfinal⟩
  · exact hresult _ Reachable.start.run Reachable.start.run_isFinal

end

/-- Two payloads are just as long as a chunk of three bytes. The first fills a window, with its `\n`
behind it; the last fills one at the end of input. -/
def tightLines : List Bytes := [[97, 98, 99], [100], [], [101, 102, 103]]

def tightSource : Source :=
  [.data [97, 98], .fail (.plain .interrupted "signal"), .data [99, 10, 100, 10],
    .data [10, 101, 102, 103], .endOfInput]

theorem written_lines_arrive_tightSource :
    ∃ chunker, Chunker.ofSource tightSource ⟨3, 3⟩ = .ok chunker
      ∧ (∃ m s, path ⟨Chunk.decoded, ⟨2, 1⟩⟩ chunker m = some s ∧ s.isFinal
        ∧ s.result.map (·.frames) = .ok [[97, 98, 99], [100], [101, 102, 103]])
      ∧ (decodeParallel chunker ⟨2, 1⟩).map (·.frames)
        = .ok [[97, 98, 99], [100], [101, 102, 103]] := by
  have hsink : AcceptingSink.Accepts Lines.pieceSink := by
    refine ⟨rfl, ?_⟩
    simp [Lines.pieceSink, WriteRule.Harmless, IoError.plain, IoError.isInterrupted]
  have hvalid : Chunk.Config.Valid ⟨3, 3⟩ := by decide
  have hclean : ∀ payload ∈ tightLines, newline ∉ payload := by decide
  have hkept : ∀ payload ∈ tightLines, payload.getLast? ≠ some carriageReturn := by decide
  have hfits : ∀ payload ∈ tightLines, payload.length ≤ 3 := by decide
  have hsource : tightSource.Delivers (AcceptingSink.data (FrameWriter.writeFrames tightLines
      (.ofSink Lines.pieceSink : FormatWriter Lines.format _)).state.sink) := by
    rw [(FormatWriter.writeFrames_ofSink (f := Lines.format) tightLines hsink rfl).2]
    exact .data (.interrupted rfl (.data (.data (.ended .nil))))
  obtain ⟨chunker, hchunker, -, hruns, hresult⟩ :=
    written_lines_arrive hsink rfl hvalid hclean hkept hfits hfits hsource ⟨2, 1⟩
  obtain ⟨m, s, hs, -, hfinal, hok⟩ := hruns _ (maximalRun_path ⟨Chunk.decoded, ⟨2, 1⟩⟩ chunker)
    fun m s hs => reachable_of_path hs
  exact ⟨chunker, hchunker, ⟨m, s, hs, hfinal, hok⟩, hresult⟩

end Pipeline

end MessageFraming
