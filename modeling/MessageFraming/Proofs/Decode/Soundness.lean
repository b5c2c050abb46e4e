import MessageFraming.Proofs.Chunk.Streaming
import MessageFraming.Proofs.Decode.Progress
import MessageFraming.Proofs.Decode.Verdict

/-!
# A pipeline never returns a short or wrong stream

Nothing is assumed of the feed or of the decoder: a feed may hand out any chunks and end, fail or
crash, and a call of the decoder may fail, crash or report any index.

* `Pipeline.Complete`: all there is was decoded, and the stream is made of it.
* `Pipeline.NeverShort`, `Pipeline.Run.neverShort`: a stream is returned exactly when it is
  complete. Otherwise an error is returned, and a crash is never hidden behind an error of another
  kind.
* `Pipeline.result_never_short`: so it is for every finished run, and for what a call returns.
* `Pipeline.workersGone_of_pretending`: the error of a refused splitter is returned only where it is
  not the splitter's.
-/

namespace MessageFraming

namespace Pipeline

/-- The feed has come to its end, no part has crashed, every chunk was decoded once and without
failure, and the indices that were reported are those of a stream without gaps. `stream` is that
stream, in the order of the indices. -/
structure Complete (events : List Event) (stream : DecodedStream) : Prop where
  ended : .fed (.ok none) ∈ events
  uncrashed : ∀ message, .fed (.crash message) ∉ events
  decoded : ((decodings events).map (·.1)).Perm (produced events)
  stream : ∃ inOrder : List DecodedChunk, ((decodings events).map (·.2)).Perm (inOrder.map .ok)
    ∧ inOrder.map (·.index) = List.range (produced events).length
    ∧ stream = ⟨inOrder.flatMap (·.frames), (inOrder.map (·.counters)).sum⟩

/-! ## Outcomes and reports -/

/-- Where each decoding has given one of the chunks that came, these are all the reports. -/
theorem reports_eq_of_outcomes {events : List Event} {came : List DecodedChunk}
    (h : ((decodings events).map (·.2)).Perm (came.map .ok)) :
    reports events = (came.map Except.ok : List DecodeResult) := by
  have hreports := h.filterMap reportOf
  rw [List.filterMap_map, List.filterMap_map] at hreports
  unfold reports
  rw [Multiset.coe_eq_coe]
  refine hreports.trans ?_
  rw [← List.filterMap_eq_map]
  exact .rfl

/-- If no decoding crashed and all reports are chunks, each decoding has given one of them. -/
theorem outcomes_of_reports {events : List Event} {came : List DecodedChunk}
    (hdecode : ¬ ∃ chunk message, (chunk, .crash message) ∈ decodings events)
    (h : reports events = (came.map Except.ok : List DecodeResult)) :
    ((decodings events).map (·.2)).Perm (came.map .ok) := by
  unfold reports at h
  rw [Multiset.coe_eq_coe] at h
  have houtcomes := h.map Outcome.ofExcept
  rw [List.map_filterMap, List.map_map] at houtcomes
  -- only a crash is not reported, and there was none
  have hall : (decodings events).map (·.2)
      = (decodings events).filterMap fun d => (reportOf d.2).map Outcome.ofExcept := by
    rw [← List.filterMap_eq_map]
    apply List.filterMap_congr
    intro d hmem
    obtain ⟨chunk, outcome⟩ := d
    cases outcome with
    | ok decoded => rfl
    | error e => rfl
    | crash message => exact absurd ⟨chunk, message, hmem⟩ hdecode
  rw [hall]
  exact houtcomes

theorem indices_map_ok (came : List DecodedChunk) :
    indices (came.map Except.ok : List DecodeResult) = (came.map (·.index) : List Nat) := by
  unfold indices
  rw [Multiset.filterMap_coe, List.filterMap_map, ← List.filterMap_eq_map]
  rfl

/-- Distinct indices without a failure are no fault. -/
theorem not_faulty {came : List DecodedChunk} (hnodup : (came.map (·.index)).Nodup)
    {e : StreamError} : ¬ Faulty (came.map Except.ok : List DecodeResult) e := by
  intro hfaulty
  cases hfaulty with
  | failed hmem =>
    obtain ⟨chunk, -, heq⟩ := List.mem_map.mp (Multiset.mem_coe.mp hmem)
    cases heq
  | @doubled i hcount =>
    rw [indices_map_ok, Multiset.coe_count] at hcount
    have := List.nodup_iff_count_le_one.mp hnodup i
    omega

/-! ## Errors of the pipeline itself -/

/-- Texts with different beginnings are different errors, whatever number stands behind. -/
theorem pipeline_append_ne {a b : String} (c : String) {n : Nat} (hn : n ≤ a.toList.length)
    (h : a.toList.take n ≠ b.toList.take n) :
    StreamError.pipeline (a ++ c) ≠ StreamError.pipeline b := by
  intro heq
  have htext : a ++ c = b := by
    cases heq
    rfl
  apply h
  rw [← htext, String.toList_append, List.take_append_of_le_length hn]

theorem duplicateChunk_ne_workersGone (i : Nat) : StreamError.duplicateChunk i ≠ .workersGone :=
  pipeline_append_ne (n := 2) (toString i) (by decide) (by decide)

theorem missingChunk_ne_workersGone (i : Nat) : StreamError.missingChunk i ≠ .workersGone :=
  pipeline_append_ne (n := 1) (toString i) (by decide) (by decide)

/-- A report of an error was the answer to some chunk. -/
theorem mem_reports_error {events : List Event} {e : StreamError} (h : .error e ∈ reports events) :
    ∃ chunk, .decoded chunk (.error e) ∈ events := by
  unfold reports at h
  obtain ⟨⟨chunk, outcome⟩, hmem, heq⟩ := List.mem_filterMap.mp (Multiset.mem_coe.mp h)
  cases outcome with
  | ok decoded => cases heq
  | error e' =>
    cases heq
    exact ⟨chunk, mem_decodings.mp hmem⟩
  | crash message => cases heq

variable {σ : Type} [ChunkFeed σ] {profile : Profile} {feed : σ} {events : List Event} {s : State σ}

/-! ## Soundness -/

/-- A final state with a stream has seen the feed to its end, every chunk decoded, and all of them
in the stream. -/
theorem Run.complete_of_ok (h : Run profile feed events s) (hfinal : s.isFinal)
    {stream : DecodedStream} (hok : s.result = .ok stream) : Complete events stream := by
  obtain ⟨hfeed, hdecode⟩ := h.uncrashed_of_result fun _ hcrash => by
    rw [hok] at hcrash
    cases hcrash
  -- of all verdicts only one is no error: the collector has finished
  rcases h.verdict hfinal hfeed hdecode with ⟨e, -, herror⟩ | ⟨came, hchunks, hreports, hresult⟩
  · rw [herror] at hok
    cases hok
  · rcases hresult with ⟨cause, -, herror⟩ | ⟨hended, collector, hholds, hfinish⟩
    · rw [herror] at hok
      cases hok
    · rw [hfinish, hholds.finish_ok_iff] at hok
      obtain ⟨inOrder, hperm, horder, rfl⟩ := hok
      have hdecoded : ((decodings events).map (·.1)).Perm (produced events) :=
        Multiset.coe_eq_coe.mp hchunks
      have houtcomes := (outcomes_of_reports hdecode hreports).trans (hperm.map _)
      -- as many chunks came as were produced, so their indices are those of a row
      have hlength : inOrder.length = (produced events).length := by
        have h₁ := houtcomes.length_eq
        have h₂ := hdecoded.length_eq
        rw [List.length_map, List.length_map] at h₁
        rw [List.length_map] at h₂
        omega
      refine ⟨hended, fun message hmem => hfeed ⟨message, hmem⟩, hdecoded, inOrder, houtcomes, ?_,
        rfl⟩
      rw [← hlength]
      exact horder

/-- Where everything has gone well and the indices are those of a row of chunks, the result is the
stream. -/
theorem Run.ok_of_complete (h : Run profile feed events s) (hfinal : s.isFinal)
    {stream : DecodedStream} (hcomplete : Complete events stream) : s.result = .ok stream := by
  obtain ⟨hended, huncrashed, hdecoded, inOrder, houtcomes, hindices, rfl⟩ := hcomplete
  have hfeed : ¬ ∃ message, .fed (.crash message) ∈ events := fun ⟨message, hmem⟩ =>
    huncrashed message hmem
  have hdecode : ¬ ∃ chunk message, (chunk, .crash message) ∈ decodings events := by
    rintro ⟨chunk, message, hmem⟩
    have hmem := houtcomes.mem_iff.mp (List.mem_map_of_mem hmem)
    obtain ⟨decoded, -, heq⟩ := List.mem_map.mp hmem
    cases heq
  have hreports := reports_eq_of_outcomes houtcomes
  -- the reports are without fault, and the feed has ended well
  rcases h.verdict hfinal hfeed hdecode with ⟨e, hfaulty, -⟩ | ⟨came, -, hcame, hresult⟩
  · rw [hreports] at hfaulty
    exact absurd hfaulty (not_faulty (hindices ▸ List.nodup_range))
  · rcases hresult with ⟨cause, hmem, -⟩ | ⟨-, collector, hholds, hfinish⟩
    · rw [h.feedFailed_iff] at hmem
      rw [h.feedEnded_iff, hmem] at hended
      cases hended
    · rw [hfinish, hholds.finish_ok_iff]
      -- what came is a permutation of what has to come
      have hperm : came.Perm inOrder := by
        rw [hreports, Multiset.coe_eq_coe] at hcame
        exact ((List.map_perm_map_iff fun a b => Except.ok.inj).mp hcame).symm
      refine ⟨inOrder, hperm, ?_, rfl⟩
      have hlength := congrArg List.length hindices
      rw [List.length_map, List.length_range] at hlength
      unfold InOrder
      rw [hindices, hlength]

/-- A refused splitter is no news to anyone: its error is returned only if a call of the decoder has
failed with the very same one. -/
theorem Run.decoded_of_workersGone (h : Run profile feed events s) (hfinal : s.isFinal)
    (hresult : s.result = .error .workersGone) :
    ∃ chunk, .decoded chunk (.error .workersGone) ∈ events := by
  obtain ⟨hfeed, hdecode⟩ := h.uncrashed_of_result fun _ hcrash => by
    rw [hresult] at hcrash
    cases hcrash
  -- of all verdicts only a report of the decoder can be this error
  rcases h.verdict hfinal hfeed hdecode with ⟨e, hfaulty, herror⟩ | ⟨came, -, -, hexhausted⟩
  · rw [herror, Except.error.injEq] at hresult
    cases hfaulty with
    | failed hmem => exact mem_reports_error (hresult ▸ hmem)
    | doubled hcount => exact absurd hresult (duplicateChunk_ne_workersGone _)
  · rcases hexhausted with ⟨cause, -, herror⟩ | ⟨-, collector, hholds, hfinish⟩
    · rw [herror] at hresult
      cases hresult
    · rw [hfinish] at hresult
      exact absurd (hholds.finish_error hresult).symm (missingChunk_ne_workersGone _)

/-- What a finished run may return, by what its feed and its decoder have answered. -/
structure NeverShort (events : List Event) (result : Except StreamError DecodedStream) : Prop where
  /-- A stream is returned exactly when it is complete, and an error otherwise. -/
  ok_iff (stream : DecodedStream) : result = .ok stream ↔ Complete events stream
  /-- If the feed has crashed, the error says so. -/
  feedCrash : (∃ message, .fed (.crash message) ∈ events) →
    result = .error (.panicked "chunk splitter")
  /-- If only calls of the decoder have crashed, the error says that. -/
  decodeCrash : (∀ message, .fed (.crash message) ∉ events) →
    (∃ chunk message, .decoded chunk (.crash message) ∈ events) →
      result = .error (.panicked "decode worker")
  /-- That the splitter found no worker left is not the error, unless a call of the decoder has
  failed with it. -/
  workersGone : result = .error .workersGone →
    ∃ chunk, .decoded chunk (.error .workersGone) ∈ events

theorem Run.neverShort (h : Run profile feed events s) (hfinal : s.isFinal) :
    NeverShort events s.result where
  ok_iff stream := ⟨h.complete_of_ok hfinal, h.ok_of_complete hfinal⟩
  feedCrash := h.result_of_feedCrash
  decodeCrash := by
    rintro hfeed ⟨chunk, message, hmem⟩
    exact h.result_of_decodeCrash (fun ⟨message, hmem⟩ => hfeed message hmem)
      ⟨chunk, message, mem_decodings.mpr hmem⟩
  workersGone := h.decoded_of_workersGone hfinal

/-- **A pipeline never returns a short or wrong stream**, whatever its feed and its decoder answer
and in whatever order its parts move. This goes for every finished run, and so for what a call
returns, which is the result of such a run. -/
theorem result_never_short (profile : Profile) :
    (∀ {σ : Type} [ChunkFeed σ] {feed : σ} {events : List Event} {s : State σ},
        Run profile feed events s → s.isFinal → NeverShort events s.result)
      ∧ ∀ {σ : Type} [FiniteChunkFeed σ] (feed : σ)
          (decode : Chunk → Outcome StreamError DecodedChunk),
        ∃ events s, Run profile feed events s ∧ Follows decode events ∧ s.isFinal
          ∧ decodeParallelWith feed profile decode = s.result
          ∧ NeverShort events (decodeParallelWith feed profile decode) := by
  refine ⟨fun h hfinal => h.neverShort hfinal, fun feed decode => ?_⟩
  obtain ⟨events, s, hrun, hfollows, hfinal, hresult⟩ :=
    exists_run_decodeParallelWith feed profile decode
  refine ⟨events, s, hrun, hfollows, hfinal, hresult, ?_⟩
  rw [hresult]
  exact hrun.neverShort hfinal

/-- Hands out the chunks of a list, and ends. -/
structure ListedFeed where
  chunks : List Chunk
deriving Repr, DecidableEq

instance : FiniteChunkFeed ListedFeed where
  next
    | ⟨[]⟩ => (.ok none, ⟨[]⟩)
    | ⟨chunk :: chunks⟩ => (.ok (some chunk), ⟨chunks⟩)
  budget feed := feed.chunks.length
  budget_lt := by
    intro feed feed' chunk h
    obtain ⟨_ | ⟨first, rest⟩⟩ := feed <;> cases h
    exact Nat.lt_succ_self _

def threeChunks : ListedFeed := ⟨[⟨0, [97, 10], 9⟩, ⟨1, [98, 10], 9⟩, ⟨2, [99, 10], 9⟩]⟩

/-- Fails on the first chunk, and crashes on the third. -/
def unsteady (chunk : Chunk) : Outcome StreamError DecodedChunk :=
  match chunk.index with
  | 0 => .error (.frame .poisoned)
  | 1 => .ok ⟨1, [[98]], ⟨1, 1, 2, 1⟩⟩
  | _ => .crash "boom"

/-- The worker waits with its second result, as the first is still queued. That is a failure, and
the collector receives it. Before the queue is closed the worker gets rid of its result and takes
the last chunk. -/
def lateSend : List Actor :=
  [.splitter, .splitter, .worker 0, .worker 0, .worker 0, .splitter, .splitter, .worker 0,
    .worker 0, .collector, .worker 0, .splitter, .splitter, .worker 0, .worker 0, .collector,
    .splitter]

theorem follow_lateSend :
    follow ⟨unsteady, ⟨1, 1⟩⟩ lateSend (start ⟨unsteady, ⟨1, 1⟩⟩ threeChunks)
      = some ⟨⟨[]⟩, .done .ended, [], [.crashed], [.ok ⟨1, [[98]], ⟨1, 1, 2, 1⟩⟩],
        .stopped (.frame .poisoned)⟩ := rfl

/-- Three chunks and a profile of zeros, where one worker decodes all of them; and a run in which
the collector has stopped at a failure, and a call of the decoder crashes behind it. -/
theorem result_never_short_choppySource :
    (∃ events s, Run ⟨0, 0⟩ Chunker.choppyChunker events s ∧ s.isFinal
        ∧ Complete events ⟨[[97], [98, 99, 100], [101]], ⟨3, 3, 7, 5⟩⟩)
      ∧ ∃ events s, Run ⟨1, 1⟩ threeChunks events s ∧ s.isFinal
        ∧ s.collecting = .stopped (.frame .poisoned)
        ∧ s.result = .error (.panicked "decode worker") := by
  constructor
  · -- a run that goes well
    obtain ⟨-, hcall⟩ := result_never_short ⟨0, 0⟩
    obtain ⟨events, s, hrun, -, hfinal, -, hshort⟩ := hcall Chunker.choppyChunker Chunk.decoded
    exact ⟨events, s, hrun, hfinal, (hshort.ok_iff _).mp (by decide +kernel)⟩
  · -- and one in which a worker sends and crashes after the collector has failed
    have hstart : Reachable ⟨unsteady, ⟨1, 1⟩⟩ threeChunks _ := .start
    obtain ⟨events, hrun, -⟩ := reachable_iff.mp (hstart.follow follow_lateSend)
    obtain ⟨hshort, -⟩ := result_never_short ⟨1, 1⟩
    refine ⟨events, _, hrun, rfl, rfl, (hshort hrun rfl).decodeCrash ?_ ?_⟩
    · intro message hmem
      cases hrun.feedCrashed_iff.mp ⟨message, hmem⟩
    · obtain ⟨chunk, message, hmem⟩ := hrun.crashed_iff.mp (List.mem_singleton_self _)
      exact ⟨chunk, message, mem_decodings.mp hmem⟩

/-- A short line, and one that is longer than its limit. -/
def overlongSource : Source := [.data [97, 10, 98, 99, 100, 10]]

def overlongChunker : Chunker := ⟨some overlongSource, ⟨4, 2⟩, Chunk.valid_fourBytes, [], 0⟩

/-- Of the first chunk it says what only a splitter has reason to say. -/
def pretending (chunk : Chunk) : Outcome StreamError DecodedChunk :=
  if chunk.index = 0 then .error .workersGone else chunk.decoded

/-- **The error of a refused splitter can be returned all the same**: a decoder is free to fail with
it. -/
theorem workersGone_of_pretending :
    ∃ events s, Run ⟨1, 1⟩ overlongChunker events s ∧ Follows pretending events ∧ s.isFinal
      ∧ s.result = .error .workersGone
      ∧ decodeParallelWith overlongChunker ⟨1, 1⟩ pretending = .error .workersGone := by
  obtain ⟨events, s, hrun, hfollows, hfinal, hresult⟩ :=
    exists_run_decodeParallelWith overlongChunker ⟨1, 1⟩ pretending
  have hgone : decodeParallelWith overlongChunker ⟨1, 1⟩ pretending = .error .workersGone := by
    decide +kernel
  exact ⟨events, s, hrun, hfollows, hfinal, hresult.symm.trans hgone, hgone⟩

end Pipeline

end MessageFraming
