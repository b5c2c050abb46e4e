import MessageFraming.Proofs.Decode.Ledger

/-!
# What a finished pipeline returns

When every part of a pipeline has ended, the ledgers are closed: nothing is underway any more. What
the call returns can be told then from the answers alone.

* `Pipeline.Run.result_of_feedCrash`, `Pipeline.Run.result_of_decodeCrash`: crashes come first.
* `Pipeline.Run.verdict`: without a crash, either the collector has stopped for a fault, or every
  chunk was decoded and every report received, and the feed decides.
-/

namespace MessageFraming

namespace Pipeline

variable {σ : Type}

/-- A state is final if all actors have ended. -/
theorem isFinal_iff {s : State σ} :
    s.isFinal ↔ s.splitter.isDone ∧ s.workers.all Worker.isDone ∧ ¬ s.collecting.isOpen := by
  unfold State.isFinal
  rw [Bool.and_eq_true, Bool.and_eq_true, Bool.not_eq_true', Bool.not_eq_true, and_assoc]

/-- Workers that are done have nothing in hand. -/
theorem sum_eq_zero_of_isDone {M : Type} [AddCommMonoid M] {f : Worker → M} {workers : List Worker}
    (hdone : workers.all Worker.isDone) (hleft : f .left = 0) (hcrashed : f .crashed = 0) :
    (workers.map f).sum = 0 := by
  apply List.sum_eq_zero
  intro x hmem
  obtain ⟨w, hw, rfl⟩ := List.mem_map.mp hmem
  have hw := List.all_eq_true.mp hdone w hw
  cases w with
  | left => exact hleft
  | crashed => exact hcrashed
  | idle => cases hw
  | decoding chunk => cases hw
  | sending result => cases hw

theorem any_isCrashed_iff {workers : List Worker} :
    workers.any Worker.isCrashed ↔ .crashed ∈ workers := by
  rw [List.any_eq_true]
  constructor
  · rintro ⟨w, hmem, hw⟩
    cases w with
    | crashed => exact hmem
    | idle => cases hw
    | decoding chunk => cases hw
    | sending result => cases hw
    | left => cases hw
  · exact fun hmem => ⟨.crashed, hmem, rfl⟩

variable [ChunkFeed σ] {profile : Profile} {feed : σ} {events : List Event} {s : State σ}

/-! ## The last answer of the feed -/

/-- The splitter has ended well just where the feed has come to its end. -/
theorem Run.feedEnded_iff (h : Run profile feed events s) :
    .fed (.ok none) ∈ events ↔ s.splitter = .done .ended := by
  obtain ⟨before, last, -, hlast, hanswers⟩ := h.fed
  rw [← mem_answers, hanswers]
  generalize s.splitter = splitter, s.feed = after at hlast ⊢
  cases hlast <;> simp

/-- The splitter tells of a failure of the feed just where there was one, and of this one. -/
theorem Run.feedFailed_iff (h : Run profile feed events s) (e : ChunkError) :
    .fed (.error e) ∈ events ↔ s.splitter = .done (.failed (.chunk e)) := by
  obtain ⟨before, last, -, hlast, hanswers⟩ := h.fed
  rw [← mem_answers, hanswers]
  generalize s.splitter = splitter, s.feed = after at hlast ⊢
  cases hlast <;> simp [StreamError.workersGone, eq_comm]

/-- The splitter has crashed just where the feed has. -/
theorem Run.feedCrashed_iff (h : Run profile feed events s) :
    (∃ message, .fed (.crash message) ∈ events) ↔ s.splitter = .done .crashed := by
  obtain ⟨before, last, -, hlast, hanswers⟩ := h.fed
  simp only [← mem_answers, hanswers]
  generalize s.splitter = splitter, s.feed = after at hlast ⊢
  cases hlast <;> simp

/-! ## The verdict -/

/-- A crash of the feed hides everything else. -/
theorem Run.result_of_feedCrash (h : Run profile feed events s)
    (hcrash : ∃ message, .fed (.crash message) ∈ events) :
    s.result = .error (.panicked "chunk splitter") :=
  if_pos (h.feedCrashed_iff.mp hcrash)

/-- A crash of a worker hides all errors. -/
theorem Run.result_of_decodeCrash (h : Run profile feed events s)
    (hfeed : ¬ ∃ message, .fed (.crash message) ∈ events)
    (hcrash : ∃ chunk message, (chunk, .crash message) ∈ decodings events) :
    s.result = .error (.panicked "decode worker") := by
  rw [h.feedCrashed_iff] at hfeed
  rw [← h.crashed_iff, ← any_isCrashed_iff] at hcrash
  unfold State.result
  rw [if_neg hfeed, if_pos hcrash]

/-- Where the result does not tell of a crash, there was none. -/
theorem Run.uncrashed_of_result (h : Run profile feed events s)
    (hresult : ∀ actor, s.result ≠ .error (.panicked actor)) :
    (¬ ∃ message, .fed (.crash message) ∈ events)
      ∧ ¬ ∃ chunk message, (chunk, .crash message) ∈ decodings events := by
  have hfeed : ¬ ∃ message, .fed (.crash message) ∈ events :=
    fun hcrash => hresult _ (h.result_of_feedCrash hcrash)
  exact ⟨hfeed, fun hcrash => hresult _ (h.result_of_decodeCrash hfeed hcrash)⟩

/-- Without a crash, the collector is asked first, and then the splitter. -/
theorem Run.result_of_no_crash (h : Run profile feed events s)
    (hfeed : ¬ ∃ message, .fed (.crash message) ∈ events)
    (hdecode : ¬ ∃ chunk message, (chunk, .crash message) ∈ decodings events) :
    s.result = match s.collecting, s.splitter with
      | .failed e, _ | .stopped e, _ => .error e
      | _, .done (.failed e) => .error e
      | .drained collector, _ => collector.finish
      | .receiving collector, _ => collector.finish := by
  rw [h.feedCrashed_iff] at hfeed
  rw [← h.crashed_iff, ← any_isCrashed_iff] at hdecode
  exact (if_neg hfeed).trans (if_neg hdecode)

/-- All chunks were decoded and all reports received. Whether this is everything there is, the feed
decides. -/
structure Exhausted (events : List Event) (came : List DecodedChunk)
    (result : Except StreamError DecodedStream) : Prop where
  chunks : decodedChunks events = (produced events : List Chunk)
  reports : reports events = (came.map Except.ok : List DecodeResult)
  result : (∃ cause, .fed (.error cause) ∈ events ∧ result = .error (.chunk cause))
    ∨ .fed (.ok none) ∈ events ∧ ∃ collector : Collector, collector.Holds came
        ∧ result = collector.finish

/-- Nothing is underway once the collector is drained, unless a worker has crashed. -/
theorem Run.underway_eq_zero (h : Run profile feed events s) (hdone : s.splitter.isDone)
    {collector : Collector} (hc : s.collecting = .drained collector)
    (hcrashed : .crashed ∉ s.workers) : underway s = 0 := by
  have hworkers := (h.of_drained hc).1
  have hsplitter : splitterHolds s.splitter = 0 := by
    cases hs : s.splitter with
    | done how => rfl
    | reading => rfl
    | sending chunk =>
      rw [hs] at hdone
      cases hdone
  -- somebody has left, and so there are no chunks to take
  have hchunks : s.chunks = [] := by
    obtain ⟨w, hmem⟩ := List.exists_mem_of_ne_nil s.workers h.workers_ne_nil
    have hw := List.all_eq_true.mp hworkers w hmem
    cases w with
    | left =>
      rcases h.of_left hmem with ⟨e, he⟩ | ⟨hchunks, -⟩
      · rw [hc] at he
        cases he
      · exact hchunks
    | crashed => exact absurd hmem hcrashed
    | idle => cases hw
    | decoding chunk => cases hw
    | sending result => cases hw
  unfold underway
  rw [hsplitter, hchunks, sum_eq_zero_of_isDone hworkers rfl rfl]
  rfl

/-- Once the collector is drained everything was decoded and received, unless someone has
crashed. -/
theorem Run.exhausted_of_drained (h : Run profile feed events s) (hdone : s.splitter.isDone)
    {collector : Collector} (hc : s.collecting = .drained collector)
    (hfeed : ¬ ∃ message, .fed (.crash message) ∈ events)
    (hdecode : ¬ ∃ chunk message, (chunk, .crash message) ∈ decodings events) :
    ∃ came, Exhausted events came s.result := by
  obtain ⟨hworkers, hresults⟩ := h.of_drained hc
  have hcrashed : .crashed ∉ s.workers := fun hmem => hdecode (h.crashed_iff.mp hmem)
  -- the splitter was not refused, since whatever refuses it would be seen here
  have hgone : s.splitter ≠ .done (.failed .workersGone) := by
    intro hs
    rcases h.of_workersGone hs with hmem | ⟨e, he⟩
    · exact hcrashed hmem
    · rw [hc] at he
      cases he
  have hunreceived : unreceived s = 0 := by
    unfold unreceived
    rw [hresults, sum_eq_zero_of_isDone hworkers rfl rfl]
    rfl
  obtain ⟨lost, hchunks, hlost⟩ := h.chunks_eq
  rw [h.underway_eq_zero hdone hc hcrashed, hlost.resolve_right hgone, zero_add, zero_add]
    at hchunks
  have hsettled := h.settled
  unfold Settled at hsettled
  rw [hc] at hsettled
  obtain ⟨came, hholds, hreports⟩ := hsettled
  rw [hunreceived, zero_add] at hreports
  refine ⟨came, hchunks.symm, hreports, ?_⟩
  have hresult := h.result_of_no_crash hfeed hdecode
  rw [hc] at hresult
  obtain ⟨before, last, -, hlast, -⟩ := h.fed
  cases hs : s.splitter with
  | reading =>
    rw [hs] at hdone
    cases hdone
  | sending chunk =>
    rw [hs] at hdone
    cases hdone
  | done how =>
    cases how with
    | ended =>
      rw [hs] at hresult
      exact Or.inr ⟨h.feedEnded_iff.mpr hs, collector, hholds, hresult⟩
    | crashed => exact absurd (h.feedCrashed_iff.mpr hs) hfeed
    | failed cause =>
      rw [hs] at hresult hlast
      generalize s.feed = after at hlast
      cases hlast with
      | refused => exact absurd hs hgone
      | @failed e after hnext => exact Or.inl ⟨e, (h.feedFailed_iff e).mpr hs, hresult⟩

/-- **The verdict on a run without crashes.** -/
theorem Run.verdict (h : Run profile feed events s) (hfinal : s.isFinal)
    (hfeed : ¬ ∃ message, .fed (.crash message) ∈ events)
    (hdecode : ¬ ∃ chunk message, (chunk, .crash message) ∈ decodings events) :
    (∃ e, Faulty (reports events) e ∧ s.result = .error e)
      ∨ ∃ came, Exhausted events came s.result := by
  obtain ⟨hdone, -, hnot⟩ := isFinal_iff.mp hfinal
  cases hc : s.collecting with
  | receiving collector | failed e =>
    rw [hc] at hnot
    exact absurd rfl hnot
  | stopped e =>
    have hresult := h.result_of_no_crash hfeed hdecode
    rw [hc] at hresult
    exact Or.inl ⟨e, (settled_iff_of_failure (congrArg failure? hc)).mp h.settled, hresult⟩
  | drained collector => exact Or.inr (h.exhausted_of_drained hdone hc hfeed hdecode)

end Pipeline

end MessageFraming
