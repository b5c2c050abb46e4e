import MessageFraming.Decode.Pipeline

/-!
# Runs of a pipeline

A pipeline is seen from outside by what it asks: its feed for chunks, and its decoder for what they
hold. A run records the answers.

* `Pipeline.Run profile feed events s`: some interleaving leads from a start on `feed` to state `s`,
  and `events` are the answers on the way. A decoder need not be a function here. It may answer any
  call in any way, and two calls on one chunk in two ways.
* `Pipeline.Follows decode events`: the decoder was the function `decode` after all. Such runs are
  what `Pipeline.Reachable` speaks of (`Pipeline.reachable_iff`).
* `Pipeline.Move`: what a step can do, one constructor for each kind of step. No other proof needs
  to look into `Pipeline.step`; invariants of runs are proved by `Pipeline.Run.induction` and by
  cases on the move.
-/

namespace MessageFraming

namespace Pipeline

/-! ## Events -/

/-- An answer that a pipeline got. -/
inductive Event where
  | fed (answer : Outcome ChunkError (Option Chunk))
  | decoded (chunk : Chunk) (outcome : Outcome StreamError DecodedChunk)

/-- The answers of the feed, in order. -/
def answers (events : List Event) : List (Outcome ChunkError (Option Chunk)) :=
  events.filterMap fun
    | .fed answer => some answer
    | .decoded _ _ => none

/-- The chunks that the feed has produced, in order. -/
def produced (events : List Event) : List Chunk :=
  (answers events).filterMap fun
    | .ok chunk? => chunk?
    | _ => none

/-- The calls of the decoder and what they came to, in order. -/
def decodings (events : List Event) : List (Chunk × Outcome StreamError DecodedChunk) :=
  events.filterMap fun
    | .fed _ => none
    | .decoded chunk outcome => some (chunk, outcome)

@[simp] theorem answers_append (a b : List Event) : answers (a ++ b) = answers a ++ answers b :=
  List.filterMap_append

@[simp] theorem produced_append (a b : List Event) :
    produced (a ++ b) = produced a ++ produced b := by
  unfold produced
  rw [answers_append, List.filterMap_append]

@[simp] theorem decodings_append (a b : List Event) :
    decodings (a ++ b) = decodings a ++ decodings b := List.filterMap_append

@[simp] theorem answers_fed (answer : Outcome ChunkError (Option Chunk)) :
    answers [.fed answer] = [answer] := rfl

@[simp] theorem answers_decoded (chunk : Chunk) (outcome : Outcome StreamError DecodedChunk) :
    answers [.decoded chunk outcome] = [] := rfl

@[simp] theorem decodings_fed (answer : Outcome ChunkError (Option Chunk)) :
    decodings [.fed answer] = [] := rfl

@[simp] theorem decodings_decoded (chunk : Chunk) (outcome : Outcome StreamError DecodedChunk) :
    decodings [.decoded chunk outcome] = [(chunk, outcome)] := rfl

@[simp] theorem produced_chunk (chunk : Chunk) : produced [.fed (.ok (some chunk))] = [chunk] := rfl

@[simp] theorem produced_end : produced [.fed (.ok none)] = [] := rfl

@[simp] theorem produced_error (e : ChunkError) : produced [.fed (.error e)] = [] := rfl

@[simp] theorem produced_crash (message : String) : produced [.fed (.crash message)] = [] := rfl

@[simp] theorem produced_decoded (chunk : Chunk) (outcome : Outcome StreamError DecodedChunk) :
    produced [.decoded chunk outcome] = [] := rfl

/-- The answers of the feed are those that the events tell of. -/
theorem mem_answers {events : List Event} {answer : Outcome ChunkError (Option Chunk)} :
    answer ∈ answers events ↔ .fed answer ∈ events := by
  unfold answers
  rw [List.mem_filterMap]
  constructor
  · rintro ⟨event, hmem, heq⟩
    cases event with
    | fed a =>
      cases heq
      exact hmem
    | decoded chunk outcome => cases heq
  · exact fun hmem => ⟨_, hmem, rfl⟩

/-- The decodings are those that the events tell of. -/
theorem mem_decodings {events : List Event} {chunk : Chunk}
    {outcome : Outcome StreamError DecodedChunk} :
    (chunk, outcome) ∈ decodings events ↔ .decoded chunk outcome ∈ events := by
  unfold decodings
  rw [List.mem_filterMap]
  constructor
  · rintro ⟨event, hmem, heq⟩
    cases event with
    | fed a => cases heq
    | decoded c o =>
      cases heq
      exact hmem
  · exact fun hmem => ⟨_, hmem, rfl⟩

/-- Every call of the decoder came to what `decode` says. -/
def Follows (decode : Chunk → Outcome StreamError DecodedChunk) (events : List Event) : Prop :=
  ∀ chunk outcome, .decoded chunk outcome ∈ events → outcome = decode chunk

variable {σ : Type}

/-- The answers that the next step of an actor gets. -/
def observe [ChunkFeed σ] (p : Pipeline) (s : State σ) : Actor → List Event
  | .splitter =>
    match s.splitter with
    | .reading => [.fed (ChunkFeed.next s.feed).1]
    | _ => []
  | .worker i =>
    match s.workers[i]? with
    | some (.decoding chunk) => [.decoded chunk (p.decode chunk)]
    | _ => []
  | .collector => []

/-! ## Moves -/

/-- What becomes of a worker whose call of the decoder came to `outcome`. -/
def workerAfter : Outcome StreamError DecodedChunk → Worker
  | .ok decoded => .sending (.ok decoded)
  | .error e => .sending (.error e)
  | .crash _ => .crashed

/-- One step, with the answers that it gets. -/
inductive Move [ChunkFeed σ] (capacity : Nat) (s : State σ) : List Event → State σ → Prop where
  | fetched {chunk : Chunk} {feed : σ} (hs : s.splitter = .reading)
      (hnext : ChunkFeed.next s.feed = (.ok (some chunk), feed)) :
      Move capacity s [.fed (.ok (some chunk))] { s with feed, splitter := .sending chunk }
  | ended {feed : σ} (hs : s.splitter = .reading)
      (hnext : ChunkFeed.next s.feed = (.ok none, feed)) :
      Move capacity s [.fed (.ok none)] { s with feed, splitter := .done .ended }
  | feedFailed {e : ChunkError} {feed : σ} (hs : s.splitter = .reading)
      (hnext : ChunkFeed.next s.feed = (.error e, feed)) :
      Move capacity s [.fed (.error e)] { s with feed, splitter := .done (.failed (.chunk e)) }
  | feedCrashed {message : String} {feed : σ} (hs : s.splitter = .reading)
      (hnext : ChunkFeed.next s.feed = (.crash message, feed)) :
      Move capacity s [.fed (.crash message)] { s with feed, splitter := .done .crashed }
  | refused {chunk : Chunk} (hs : s.splitter = .sending chunk)
      (hgone : s.workers.all Worker.isDone) :
      Move capacity s [] { s with splitter := .done (.failed .workersGone) }
  | queued {chunk : Chunk} (hs : s.splitter = .sending chunk)
      (halive : ¬ s.workers.all Worker.isDone) (hroom : s.chunks.length < capacity) :
      Move capacity s [] { s with splitter := .reading, chunks := s.chunks ++ [chunk] }
  | took {i : Nat} {chunk : Chunk} {chunks : List Chunk} (hw : s.workers[i]? = some .idle)
      (hc : s.chunks = chunk :: chunks) :
      Move capacity s [] { s with chunks, workers := s.workers.set i (.decoding chunk) }
  | retired {i : Nat} (hw : s.workers[i]? = some .idle) (hc : s.chunks = [])
      (hs : s.splitter.isDone) :
      Move capacity s [] { s with workers := s.workers.set i .left }
  | decoded {i : Nat} {chunk : Chunk} (outcome : Outcome StreamError DecodedChunk)
      (hw : s.workers[i]? = some (.decoding chunk)) :
      Move capacity s [.decoded chunk outcome]
        { s with workers := s.workers.set i (workerAfter outcome) }
  | delivered {i : Nat} {result : DecodeResult} (hw : s.workers[i]? = some (.sending result))
      (hc : s.collecting.isOpen) (hroom : s.results.length < capacity) :
      Move capacity s []
        { s with results := s.results ++ [result], workers := s.workers.set i .idle }
  | dropped {i : Nat} {result : DecodeResult} (hw : s.workers[i]? = some (.sending result))
      (hc : ¬ s.collecting.isOpen) :
      Move capacity s [] { s with workers := s.workers.set i .left }
  | accepted {chunk : DecodedChunk} {results : List DecodeResult} {collector next : Collector}
      (hc : s.collecting = .receiving collector) (hr : s.results = .ok chunk :: results)
      (hpush : collector.push chunk = .ok next) :
      Move capacity s [] { s with results, collecting := .receiving next }
  | rejected {chunk : DecodedChunk} {results : List DecodeResult} {collector : Collector}
      {e : StreamError} (hc : s.collecting = .receiving collector)
      (hr : s.results = .ok chunk :: results) (hpush : collector.push chunk = .error e) :
      Move capacity s [] { s with results, collecting := .failed e }
  | failed {results : List DecodeResult} {collector : Collector} {e : StreamError}
      (hc : s.collecting = .receiving collector) (hr : s.results = .error e :: results) :
      Move capacity s [] { s with results, collecting := .failed e }
  | closed {e : StreamError} (hc : s.collecting = .failed e) :
      Move capacity s [] { s with collecting := .stopped e }
  | drained {collector : Collector} (hc : s.collecting = .receiving collector)
      (hr : s.results = []) (hgone : s.workers.all Worker.isDone) :
      Move capacity s [] { s with collecting := .drained collector }

/-- Each step of the splitter is a move of the splitter, with the events that are observed. -/
theorem Move.of_stepSplitter [ChunkFeed σ] {p : Pipeline} {s s' : State σ}
    (h : p.stepSplitter s = some s') : Move p.capacity s (p.observe s .splitter) s' := by
  unfold stepSplitter at h
  simp only [observe]
  -- it gives up if all workers have gone, and otherwise needs room in the queue
  split at h
  · rename_i hs
    rw [hs]
    -- each answer of the feed has a move of its own
    split at h <;> rename_i hnext <;> cases h <;> rw [hnext]
    · exact .fetched hs hnext
    · exact .ended hs hnext
    · exact .feedFailed hs hnext
    · exact .feedCrashed hs hnext
  · rename_i chunk hs
    rw [hs]
    split at h
    · rename_i hgone
      cases h
      exact .refused hs hgone
    · rename_i halive
      split at h
      · rename_i hroom
        cases h
        exact .queued hs halive hroom
      · cases h
  · cases h

/-- Each step of a worker is a move of that worker. -/
theorem Move.of_stepWorker [ChunkFeed σ] {p : Pipeline} {i : Nat} {s s' : State σ}
    (h : p.stepWorker i s = some s') : Move p.capacity s (p.observe s (.worker i)) s' := by
  unfold stepWorker at h
  simp only [observe]
  split at h
  · rename_i hw
    rw [hw]
    split at h
    · rename_i chunk chunks hc
      cases h
      exact .took hw hc
    · rename_i hc
      split at h
      · rename_i hdone
        cases h
        exact .retired hw hc hdone
      · cases h
  · rename_i chunk hw
    rw [hw]
    -- the three outcomes of a call are one move
    have hafter : s' = { s with workers := s.workers.set i (workerAfter (p.decode chunk)) } := by
      split at h <;> rename_i houtcome <;> cases h <;> rw [houtcome] <;> rfl
    rw [hafter]
    exact .decoded (p.decode chunk) hw
  · rename_i result hw
    rw [hw]
    split at h
    · rename_i hc
      split at h
      · rename_i hroom
        cases h
        exact .delivered hw hc hroom
      · cases h
    · rename_i hc
      cases h
      exact .dropped hw hc
  all_goals cases h

/-- Each step of the collector is one of its moves, and they are not observed. -/
theorem Move.of_stepCollector [ChunkFeed σ] {p : Pipeline} {s s' : State σ}
    (h : stepCollector s = some s') : Move p.capacity s (p.observe s .collector) s' := by
  unfold stepCollector at h
  split at h
  · rename_i collector hc
    split at h
    · rename_i result results hr
      cases result with
      | ok chunk =>
        -- the collector takes the chunk or refuses it
        split at h <;> rename_i hpush <;> cases h
        · exact .accepted hc hr hpush
        · exact .rejected hc hr hpush
      | error e =>
        split at h <;> rename_i hpush <;> cases h <;> cases hpush
        exact .failed hc hr
    · rename_i hr
      split at h
      · rename_i hgone
        cases h
        exact .drained hc hr hgone
      · cases h
  · rename_i e hc
    cases h
    exact .closed hc
  all_goals cases h

/-- **Every step is a move.** -/
theorem Move.of_step [ChunkFeed σ] {p : Pipeline} {actor : Actor} {s s' : State σ}
    (h : p.step actor s = some s') : Move p.capacity s (p.observe s actor) s' := by
  cases actor with
  | splitter => exact .of_stepSplitter h
  | worker i => exact .of_stepWorker h
  | collector => exact .of_stepCollector h

/-! ## Runs -/

inductive Run [ChunkFeed σ] (profile : Profile) (feed : σ) : List Event → State σ → Prop where
  | start (decode : Chunk → Outcome StreamError DecodedChunk) :
      Run profile feed [] (start ⟨decode, profile⟩ feed)
  | step {events : List Event} {s s' : State σ} {actor : Actor}
      (decode : Chunk → Outcome StreamError DecodedChunk) :
      Run profile feed events s → step ⟨decode, profile⟩ actor s = some s' →
        Run profile feed (events ++ observe ⟨decode, profile⟩ s actor) s'

/-- Induction on the moves of a run. -/
@[elab_as_elim]
theorem Run.induction [ChunkFeed σ] {profile : Profile} {feed : σ}
    {motive : ∀ events s, Run profile feed events s → Prop}
    (start : ∀ decode, motive [] _ (.start decode))
    (move : ∀ {events s seen s'} (hrun : Run profile feed events s)
      (_ : Move profile.raised.inflight s seen s') (hrun' : Run profile feed (events ++ seen) s'),
      motive events s hrun → motive (events ++ seen) s' hrun')
    {events : List Event} {s : State σ} (h : Run profile feed events s) : motive events s h := by
  induction h with
  | start decode => exact start decode
  | step decode hrun hstep ih => exact move hrun (.of_step hstep) (.step decode hrun hstep) ih

/-- A step depends on the decoder only through the answer that it gets. -/
theorem step_congr [ChunkFeed σ] {decode decode' : Chunk → Outcome StreamError DecodedChunk}
    {profile : Profile} {s : State σ} {actor : Actor}
    (h : Follows decode' (observe ⟨decode, profile⟩ s actor)) :
    step ⟨decode, profile⟩ actor s = step ⟨decode', profile⟩ actor s := by
  cases actor with
  | splitter => rfl
  | collector => rfl
  | worker i =>
    show stepWorker _ i s = stepWorker _ i s
    unfold stepWorker
    split
    · rfl
    · rename_i chunk hw
      -- only a worker that decodes asks the decoder, and about this chunk
      have hsame : decode chunk = decode' chunk := by
        apply h chunk
        simp only [observe, hw]
        exact List.mem_singleton_self _
      simp only [hsame]
    · rfl
    all_goals rfl

/-- What a step observes of the decoder is what this decoder answers. -/
theorem follows_observe [ChunkFeed σ] (p : Pipeline) (s : State σ) (actor : Actor) :
    Follows p.decode (p.observe s actor) := by
  intro chunk outcome hmem
  cases actor with
  | splitter =>
    simp only [observe] at hmem
    split at hmem
    · rw [List.mem_singleton] at hmem
      cases hmem
    · cases hmem
  | worker i =>
    simp only [observe] at hmem
    split at hmem
    · rw [List.mem_singleton] at hmem
      cases hmem
      rfl
    · cases hmem
  | collector => cases hmem

/-- **Reachable states are the ends of runs** whose decoder is a function. -/
theorem reachable_iff [ChunkFeed σ] {p : Pipeline} {feed : σ} {s : State σ} :
    Reachable p feed s ↔ ∃ events, Run p.profile feed events s ∧ Follows p.decode events := by
  constructor
  · intro h
    induction h with
    | start => exact ⟨[], .start p.decode, fun _ _ hmem => absurd hmem List.not_mem_nil⟩
    | @step s s' _ hstep ih =>
      obtain ⟨events, hrun, hfollows⟩ := ih
      obtain ⟨actor, hactor⟩ := hstep
      refine ⟨_, .step p.decode hrun hactor, ?_⟩
      intro chunk outcome hmem
      rcases List.mem_append.mp hmem with hmem | hmem
      · exact hfollows chunk outcome hmem
      · exact follows_observe p s actor chunk outcome hmem
  · -- along the run, each step is one of `p` as well
    rintro ⟨events, hrun, hfollows⟩
    induction hrun with
    | start decode => exact .start
    | @step events s s' actor decode hrun hstep ih =>
      have hbefore : Follows p.decode events := fun chunk outcome hmem =>
        hfollows chunk outcome (List.mem_append_left _ hmem)
      have hnow : Follows p.decode (observe ⟨decode, p.profile⟩ s actor) :=
        fun chunk outcome hmem => hfollows chunk outcome (List.mem_append_right _ hmem)
      rw [step_congr hnow] at hstep
      exact .step (ih hbefore) ⟨actor, hstep⟩

/-- Lets these actors take a step each, one after the other. -/
def follow [ChunkFeed σ] (p : Pipeline) : List Actor → State σ → Option (State σ)
  | [], s => some s
  | actor :: actors, s => (p.step actor s).bind (p.follow actors)

/-- A schedule that nobody blocks is an interleaving. -/
theorem Reachable.follow [ChunkFeed σ] {p : Pipeline} {feed : σ} {actors : List Actor}
    {s s' : State σ} (h : Reachable p feed s) (hfollow : p.follow actors s = some s') :
    Reachable p feed s' := by
  induction actors generalizing s with
  | nil =>
    cases hfollow
    exact h
  | cons actor actors ih =>
    obtain ⟨next, hstep, hrest⟩ := Option.bind_eq_some_iff.mp hfollow
    exact ih (.step h ⟨actor, hstep⟩) hrest

/-- `Pipeline.run` follows one of the interleavings. -/
theorem Reachable.run [FiniteChunkFeed σ] {p : Pipeline} {feed : σ} {s : State σ}
    (h : Reachable p feed s) : Reachable p feed (p.run s) := by
  fun_induction Pipeline.run p s with
  | case1 s s' hstep ih =>
    obtain ⟨actor, -, hactor⟩ := List.exists_of_findSome?_eq_some hstep
    exact ih (.step h ⟨actor, hactor⟩)
  | case2 s hstep => exact h

end Pipeline

end MessageFraming
