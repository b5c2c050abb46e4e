import MessageFraming.Proofs.Decode.Ledger

/-!
# Backpressure

A splitter that is faster than the workers fills the queues and then waits, and so do workers that
are faster than the collector. How many chunks have left the feed and are still somewhere in the
pipeline is therefore bounded by its size, however long the feed is, if it ends at all.

* `Pipeline.Tallied`: a run with a count of the chunks whose results were received, and of those
  that were dropped. Every chunk is in flight or was counted (`Pipeline.Tallied.length_eq`).
* `Pipeline.Run.inFlight_le`: no more are in flight than the pipeline has places for.
* `Pipeline.State.slack`: the places that chunks can still move up to. It bounds what is fetched
  while nothing is received (`Pipeline.Unattended.length_le`), and nothing is once the collector has
  stopped.
* `Pipeline.backpressure`: both bounds.
-/

namespace MessageFraming

/-! ## Hands -/

/-- Chunks in the splitter's hands. -/
def Splitter.held : Splitter → Nat
  | sending _ => 1
  | _ => 0

/-- Chunks in the hands of a worker, decoded or not. -/
def Worker.held : Worker → Nat
  | decoding _ | sending _ => 1
  | _ => 0

/-- The splitter is about to fetch a chunk. -/
def Splitter.wants : Splitter → Nat
  | reading => 1
  | _ => 0

/-- A worker that can still take a chunk. -/
def Worker.wants : Worker → Nat
  | idle => 1
  | _ => 0

theorem Splitter.held_le (a : Splitter) : a.held ≤ 1 := by
  cases a <;> simp [held]

theorem Splitter.wants_le (a : Splitter) : a.wants ≤ 1 := by
  cases a <;> simp [wants]

theorem Worker.held_le (w : Worker) : w.held ≤ 1 := by
  cases w <;> simp [held]

theorem Worker.wants_le (w : Worker) : w.wants ≤ 1 := by
  cases w <;> simp [wants]

/-- Whoever is done has dropped what was in their hands before. -/
def Splitter.drops (before after : Splitter) : Nat := if after.isDone then before.held else 0

def Worker.drops (before after : Worker) : Nat := if after.isDone then before.held else 0

@[simp] theorem Splitter.drops_self (a : Splitter) : a.drops a = 0 := by
  cases a <;> rfl

@[simp] theorem Worker.drops_self (w : Worker) : w.drops w = 0 := by
  cases w <;> rfl

namespace Pipeline

variable {σ : Type}

/-- Chunks that were fetched and are in the splitter's hands, queued, in the hands of a worker, or
decoded and queued. -/
def State.inFlight (s : State σ) : Nat :=
  s.splitter.held + s.chunks.length + (s.workers.map Worker.held).sum + s.results.length

/-- Results that the collector takes from its queue between two states. -/
def receivedIn (s s' : State σ) : Nat := s.results.length - s'.results.length

/-- Chunks that are dropped between two states, by the splitter or by a worker. -/
def droppedIn (s s' : State σ) : Nat :=
  s.splitter.drops s'.splitter + (List.zipWith Worker.drops s.workers s'.workers).sum

/-- One worker's part in the chunks that the workers hold is replaced. -/
theorem held_set {workers : List Worker} {i : Nat} {w : Worker} (v : Worker)
    (hw : workers[i]? = some w) :
    ((workers.set i v).map Worker.held).sum + w.held = (workers.map Worker.held).sum + v.held :=
  sum_map_set Worker.held hw

/-- One worker's part in what the workers will still take is replaced. -/
theorem wants_set {workers : List Worker} {i : Nat} {w : Worker} (v : Worker)
    (hw : workers[i]? = some w) :
    ((workers.set i v).map Worker.wants).sum + w.wants = (workers.map Worker.wants).sum + v.wants :=
  sum_map_set Worker.wants hw

theorem sum_map_le_length {f : Worker → Nat} (hf : ∀ w, f w ≤ 1) (workers : List Worker) :
    (workers.map f).sum ≤ workers.length := by
  induction workers with
  | nil => exact Nat.le_refl 0
  | cons w workers ih =>
    have hw := hf w
    rw [List.map_cons, List.sum_cons, List.length_cons]
    omega

@[simp] theorem drops_workers (workers : List Worker) :
    (List.zipWith Worker.drops workers workers).sum = 0 := by
  induction workers with
  | nil => rfl
  | cons w workers ih => rw [List.zipWith_cons_cons, List.sum_cons, ih, Worker.drops_self]

/-- Of all workers only the one that moved can have lost a chunk. -/
theorem drops_set {workers : List Worker} {i : Nat} {w : Worker} (v : Worker)
    (hw : workers[i]? = some w) :
    (List.zipWith Worker.drops workers (workers.set i v)).sum = w.drops v := by
  induction workers generalizing i with
  | nil => cases hw
  | cons u workers ih =>
    cases i with
    | zero =>
      cases hw
      rw [List.set_cons_zero, List.zipWith_cons_cons, List.sum_cons, drops_workers, Nat.add_zero]
    | succ i =>
      rw [List.getElem?_cons_succ] at hw
      rw [List.set_cons_succ, List.zipWith_cons_cons, List.sum_cons, ih hw, Worker.drops_self,
        Nat.zero_add]

/-- Nothing is on its way at the start. -/
theorem inFlight_start (p : Pipeline) (feed : σ) : (p.start feed).inFlight = 0 := by
  have hidle : ((List.replicate p.workerCount Worker.idle).map Worker.held).sum = 0 := by
    rw [List.map_replicate]
    exact List.sum_replicate_nat.trans (Nat.mul_zero _)
  rw [State.inFlight, start, hidle]
  rfl

/-- The places that chunks can still move up to, and the one that the splitter can fetch. -/
def State.slack (capacity : Nat) (s : State σ) : Nat :=
  s.splitter.wants + (capacity - s.chunks.length) + (s.workers.map Worker.wants).sum
    + (capacity - s.results.length)

/-- At the start there is room for two queues, one chunk for each worker and one for the splitter.
There is never more. -/
theorem State.slack_le (s : State σ) (capacity : Nat) :
    s.slack capacity ≤ 2 * capacity + s.workers.length + 1 := by
  have hworkers := sum_map_le_length Worker.wants_le s.workers
  have hsplitter := s.splitter.wants_le
  unfold State.slack
  omega

section

variable [ChunkFeed σ] {profile : Profile} {feed : σ} {events : List Event} {s s' : State σ}

/-- **Nothing vanishes in a move**: a chunk that is fetched is in flight, until its result is
received or it is dropped. -/
theorem Move.inFlight_eq {capacity : Nat} {seen : List Event} (h : Move capacity s seen s') :
    s.inFlight + (produced seen).length = s'.inFlight + receivedIn s s' + droppedIn s s' := by
  have hnone : (produced []).length = 0 := rfl
  cases h with
  | fetched hs | ended hs | feedFailed hs | feedCrashed hs | refused hs | queued hs =>
    -- the splitter moves, and the workers do not
    simp only [State.inFlight, receivedIn, droppedIn, hs, Splitter.held, Splitter.drops,
      Splitter.isDone, drops_workers, produced_chunk, produced_end, produced_error, produced_crash,
      hnone, List.length_append, List.length_singleton, List.length_nil, if_true,
      Bool.false_eq_true, if_false]
    omega
  | @took i chunk chunks hw hc =>
    have hheld := held_set (.decoding chunk) hw
    have hdrops : _ = 0 := drops_set (.decoding chunk) hw
    simp only [Worker.held] at hheld
    simp only [State.inFlight, receivedIn, droppedIn, Splitter.drops_self, hdrops, hc, hnone,
      List.length_cons]
    omega
  | retired hw =>
    have hheld := held_set .left hw
    have hdrops : _ = 0 := drops_set .left hw
    simp only [Worker.held] at hheld
    simp only [State.inFlight, receivedIn, droppedIn, Splitter.drops_self, hdrops, hnone]
    omega
  | @decoded i chunk outcome hw =>
    have hheld := held_set (workerAfter outcome) hw
    have hdrops := drops_set (workerAfter outcome) hw
    -- the chunk stays in its hands, unless the call has crashed
    have hkept : (workerAfter outcome).held
        + Worker.drops (.decoding chunk) (workerAfter outcome) = (Worker.decoding chunk).held := by
      cases outcome <;> rfl
    simp only [State.inFlight, receivedIn, droppedIn, Splitter.drops_self, hdrops, produced_decoded,
      List.length_nil]
    omega
  | delivered hw =>
    have hheld := held_set .idle hw
    have hdrops : _ = 0 := drops_set .idle hw
    simp only [Worker.held] at hheld
    simp only [State.inFlight, receivedIn, droppedIn, Splitter.drops_self, hdrops, hnone,
      List.length_append, List.length_singleton]
    omega
  | dropped hw =>
    have hheld := held_set .left hw
    have hdrops : _ = 1 := drops_set .left hw
    simp only [Worker.held] at hheld
    simp only [State.inFlight, receivedIn, droppedIn, Splitter.drops_self, hdrops, hnone]
    omega
  | accepted hc hr | rejected hc hr | failed hc hr =>
    simp only [State.inFlight, receivedIn, droppedIn, Splitter.drops_self, drops_workers, hr, hnone,
      List.length_cons]
    omega
  | closed | drained =>
    simp only [State.inFlight, receivedIn, droppedIn, Splitter.drops_self, drops_workers, hnone]
    omega

/-! ## Chunks in flight -/

/-- `Run` with a count of the chunks whose results the collector has received, and of those that
were dropped. -/
inductive Tallied (profile : Profile) (feed : σ) : List Event → Nat → Nat → State σ → Prop where
  | start (decode : Chunk → Outcome StreamError DecodedChunk) :
      Tallied profile feed [] 0 0 (start ⟨decode, profile⟩ feed)
  | step {events : List Event} {got lost : Nat} {s s' : State σ} {actor : Actor}
      (decode : Chunk → Outcome StreamError DecodedChunk) :
      Tallied profile feed events got lost s → step ⟨decode, profile⟩ actor s = some s' →
        Tallied profile feed (events ++ observe ⟨decode, profile⟩ s actor)
          (got + receivedIn s s') (lost + droppedIn s s') s'

/-- But for the count nothing is different. -/
theorem run_iff_tallied :
    Run profile feed events s ↔ ∃ got lost, Tallied profile feed events got lost s := by
  constructor
  · intro h
    induction h with
    | start decode => exact ⟨0, 0, .start decode⟩
    | step decode _ hstep ih =>
      obtain ⟨got, lost, h⟩ := ih
      exact ⟨_, _, .step decode h hstep⟩
  · rintro ⟨got, lost, h⟩
    induction h with
    | start decode => exact .start decode
    | step decode _ hstep ih => exact .step decode ih hstep

/-- **Every chunk is in flight, or was received or dropped.** Induction on the steps. -/
theorem Tallied.length_eq {got lost : Nat} (h : Tallied profile feed events got lost s) :
    (produced events).length = s.inFlight + got + lost := by
  induction h with
  | start decode =>
    rw [inFlight_start]
    rfl
  | step decode _ hstep ih =>
    have hmove := (Move.of_step hstep).inFlight_eq
    rw [produced_append, List.length_append]
    omega

/-- The queues are never fuller than they may be. -/
theorem Run.queues_le (h : Run profile feed events s) :
    s.chunks.length ≤ profile.raised.inflight ∧ s.results.length ≤ profile.raised.inflight := by
  induction h using Run.induction with
  | start decode => exact ⟨Nat.zero_le _, Nat.zero_le _⟩
  | move hrun hmove hrun' ih =>
    obtain ⟨hchunks, hresults⟩ := ih
    cases hmove with
    -- the only moves that put something into a queue ask for room first
    | queued hs halive hroom =>
      refine ⟨?_, hresults⟩
      rw [List.length_append]
      exact hroom
    | took hw hc =>
      rw [hc, List.length_cons] at hchunks
      exact ⟨Nat.le_of_succ_le hchunks, hresults⟩
    | delivered hw hc hroom =>
      refine ⟨hchunks, ?_⟩
      rw [List.length_append]
      exact hroom
    -- the collector takes from its queue
    | accepted hc hr | rejected hc hr | failed hc hr =>
      rw [hr, List.length_cons] at hresults
      exact ⟨hchunks, Nat.le_of_succ_le hresults⟩
    | _ => exact ⟨hchunks, hresults⟩

/-- **No more chunks are in flight than there are places for**: both queues, a chunk for each
worker, and one for the splitter. -/
theorem Run.inFlight_le (h : Run profile feed events s) :
    s.inFlight ≤ 2 * profile.raised.inflight + profile.raised.workers + 1 := by
  obtain ⟨hchunks, hresults⟩ := h.queues_le
  have hworkers := sum_map_le_length Worker.held_le s.workers
  have hsplitter := s.splitter.held_le
  rw [h.workers_length] at hworkers
  unfold State.inFlight
  omega

/-! ## Nobody receives -/

/-- **A move of which the collector gets nothing uses up the places for what it fetches.** Passing a
chunk on fills one place and frees another. -/
theorem Move.slack_le {capacity : Nat} {seen : List Event} (h : Move capacity s seen s')
    (hkept : s.results.length ≤ s'.results.length) :
    (produced seen).length + s'.slack capacity ≤ s.slack capacity := by
  have hnone : (produced []).length = 0 := rfl
  cases h with
  | fetched hs | ended hs | feedFailed hs | feedCrashed hs | refused hs | queued hs =>
    simp only [State.slack, hs, Splitter.wants, produced_chunk, produced_end, produced_error,
      produced_crash, hnone, List.length_append, List.length_singleton, List.length_nil]
    omega
  | @took i chunk chunks hw hc =>
    have hwants := wants_set (.decoding chunk) hw
    simp only [Worker.wants] at hwants
    simp only [State.slack, hc, hnone, List.length_cons]
    omega
  | retired hw =>
    have hwants := wants_set .left hw
    simp only [Worker.wants] at hwants
    simp only [State.slack, hnone]
    omega
  | @decoded i chunk outcome hw =>
    have hwants := wants_set (workerAfter outcome) hw
    have hsame : (workerAfter outcome).wants = (Worker.decoding chunk).wants := by
      cases outcome <;> rfl
    simp only [State.slack, produced_decoded, List.length_nil]
    omega
  | delivered hw hc hroom =>
    have hwants := wants_set .idle hw
    simp only [Worker.wants] at hwants
    simp only [State.slack, hnone, List.length_append, List.length_singleton]
    omega
  | dropped hw =>
    have hwants := wants_set .left hw
    simp only [Worker.wants] at hwants
    simp only [State.slack, hnone]
    omega
  | accepted hc hr | rejected hc hr | failed hc hr =>
    -- the collector got something
    rw [hr, List.length_cons] at hkept
    exact absurd hkept (Nat.not_succ_le_self _)
  | closed | drained =>
    simp only [State.slack, hnone]
    omega

/-- A run goes on from `s`. -/
inductive Continues (profile : Profile) (s : State σ) : List Event → State σ → Prop where
  | refl : Continues profile s [] s
  | step {later : List Event} {s' s'' : State σ} {actor : Actor}
      (decode : Chunk → Outcome StreamError DecodedChunk) :
      Continues profile s later s' → step ⟨decode, profile⟩ actor s' = some s'' →
        Continues profile s (later ++ observe ⟨decode, profile⟩ s' actor) s''

/-- A run goes on from `s`, and the collector receives nothing any more. It may give up its queue at
any time. -/
inductive Unattended (profile : Profile) (s : State σ) : List Event → State σ → Prop where
  | refl : Unattended profile s [] s
  | step {later : List Event} {s' s'' : State σ} {actor : Actor}
      (decode : Chunk → Outcome StreamError DecodedChunk) :
      Unattended profile s later s' → step ⟨decode, profile⟩ actor s' = some s'' →
        s'.results <+: s''.results →
        Unattended profile s (later ++ observe ⟨decode, profile⟩ s' actor) s''
  | gaveUp {later : List Event} {s' : State σ} (cause : StreamError) :
      Unattended profile s later s' →
        Unattended profile s later { s' with collecting := .stopped cause }

/-- A run that is continued is a run of the events of both. -/
theorem Run.continues {later : List Event} (h : Run profile feed events s)
    (hlater : Continues profile s later s') : Run profile feed (events ++ later) s' := by
  induction hlater with
  | refl => rwa [List.append_nil]
  | step decode _ hstep ih =>
    rw [← List.append_assoc]
    exact .step decode ih hstep

/-- A collector that has stopped receives nothing. -/
theorem Move.of_hasStopped {capacity : Nat} {seen : List Event} (h : Move capacity s seen s')
    (hstopped : s.HasStopped) : s'.HasStopped ∧ s.results <+: s'.results := by
  obtain ⟨e, he⟩ := hstopped
  cases h with
  | accepted hc | rejected hc | failed hc | drained hc =>
    rw [hc] at he
    cases he
  | closed hc =>
    -- the queue is closed, and the failure stays what it is
    exact ⟨⟨_, rfl⟩, List.prefix_refl _⟩
  | delivered => exact ⟨⟨e, he⟩, List.prefix_append _ _⟩
  | _ => exact ⟨⟨e, he⟩, List.prefix_refl _⟩

/-- Once the collector has stopped, it stays so, and no continuation takes a result. -/
theorem Continues.unattended {later : List Event} (h : Continues profile s later s')
    (hstopped : s.HasStopped) : Unattended profile s later s' ∧ s'.HasStopped := by
  induction h with
  | refl => exact ⟨.refl, hstopped⟩
  | step decode _ hstep ih =>
    obtain ⟨hlater, hstopped'⟩ := ih
    obtain ⟨hstays, hkept⟩ := (Move.of_step hstep).of_hasStopped hstopped'
    exact ⟨.step decode hlater hstep hkept, hstays⟩

/-- What is fetched while nothing is received. Induction on the steps. -/
theorem Unattended.length_le {later : List Event} (h : Unattended profile s later s') :
    (produced later).length + s'.slack profile.raised.inflight
      ≤ s.slack profile.raised.inflight := by
  induction h with
  | refl => exact Nat.le_of_eq (Nat.zero_add _)
  | step decode _ hstep hkept ih =>
    have hmove : Move profile.raised.inflight _ _ _ := .of_step hstep
    have hslack := hmove.slack_le hkept.length_le
    rw [produced_append, List.length_append]
    omega
  | gaveUp cause _ ih => exact ih

/-- What backpressure keeps in the state `s` of a run in which `got` results were received and
`lost` chunks were dropped. -/
structure Backpressured (profile : Profile) (events : List Event) (got lost : Nat) (s : State σ) :
    Prop where
  /-- Each chunk that the feed has returned is in flight, or its result was received by the
  collector, or it was dropped. -/
  accounted : (produced events).length = s.inFlight + got + lost
  /-- Those in flight are at most as many as there are places in both queues and hands to hold
  them. -/
  inFlight_le : s.inFlight ≤ 2 * profile.raised.inflight + profile.raised.workers + 1
  /-- Once the collector has stopped at a failure, no more than that are fetched in the rest of the
  run. -/
  fetched_le (hstopped : s.HasStopped) {later : List Event} {s' : State σ}
    (hlater : Continues profile s later s') :
    (produced later).length ≤ 2 * profile.raised.inflight + profile.raised.workers + 1
  /-- It makes no difference if others can still send to the collector for a while after it has
  stopped receiving. -/
  unattended_le {collecting : Collecting} {later : List Event} {s' : State σ}
    (hlater : Unattended profile { s with collecting } later s') :
    (produced later).length ≤ 2 * profile.raised.inflight + profile.raised.workers + 1

/-- The places that are left bound what is fetched unattended, and they are no more than all there
are. -/
theorem Run.unattended_le {collecting : Collecting} {later : List Event}
    (h : Run profile feed events s)
    (hlater : Unattended profile { s with collecting } later s') :
    (produced later).length ≤ 2 * profile.raised.inflight + profile.raised.workers + 1 := by
  have hlength := hlater.length_le
  have hslack := State.slack_le { s with collecting } profile.raised.inflight
  have hworkers := h.workers_length
  change _ ≤ 2 * _ + s.workers.length + 1 at hslack
  omega

/-- **Backpressure bounds what is in flight**, in every state of a run, whatever the feed, and also
if it never ends. -/
theorem backpressure (profile : Profile) (feed : σ) :
    (∀ events s, Run profile feed events s
        ↔ ∃ got lost, Tallied profile feed events got lost s)
      ∧ ∀ events got lost s, Tallied profile feed events got lost s →
        Backpressured profile events got lost s := by
  refine ⟨fun events s => run_iff_tallied, fun events got lost s h => ?_⟩
  have hrun : Run profile feed events s := run_iff_tallied.mpr ⟨got, lost, h⟩
  exact {
    accounted := h.length_eq
    inFlight_le := hrun.inFlight_le
    fetched_le := fun hstopped _ _ hlater =>
      hrun.unattended_le (hlater.unattended hstopped).1
    unattended_le := hrun.unattended_le }

end

/-- A feed that never ends, with chunks of no bytes. -/
structure EndlessFeed where
  index : Nat
deriving Repr, DecidableEq

instance : ChunkFeed EndlessFeed where
  next feed := (.ok (some ⟨feed.index, [], 1⟩), ⟨feed.index + 1⟩)

/-- Fails on every chunk. -/
def failing (_ : Chunk) : Outcome StreamError DecodedChunk := .error (.frame .poisoned)

/-- One worker and queues of one place: all places are taken, one of them by a failure. Then the
collector takes that one, and stops. -/
theorem backpressure_endlessFeed :
    ∃ events events' s s', Tallied ⟨0, 0⟩ (⟨0⟩ : EndlessFeed) events 0 0 s
      ∧ s.inFlight = 2 * 1 + 1 + 1
      ∧ Tallied ⟨0, 0⟩ (⟨0⟩ : EndlessFeed) events' 1 0 s' ∧ s'.HasStopped
      ∧ ∀ later s'', Continues ⟨0, 0⟩ s' later s'' → (produced later).length ≤ 2 * 1 + 1 + 1 := by
  have h : Tallied ⟨0, 0⟩ (⟨0⟩ : EndlessFeed) [] 0 0 _ := .start failing
  -- a result is queued
  have h := h.step failing (rfl : step ⟨failing, ⟨0, 0⟩⟩ .splitter _ = some _)
  have h := h.step failing (rfl : step ⟨failing, ⟨0, 0⟩⟩ .splitter _ = some _)
  have h := h.step failing (rfl : step ⟨failing, ⟨0, 0⟩⟩ (.worker 0) _ = some _)
  have h := h.step failing (rfl : step ⟨failing, ⟨0, 0⟩⟩ (.worker 0) _ = some _)
  have h := h.step failing (rfl : step ⟨failing, ⟨0, 0⟩⟩ (.worker 0) _ = some _)
  -- the worker has the next one in its hands
  have h := h.step failing (rfl : step ⟨failing, ⟨0, 0⟩⟩ .splitter _ = some _)
  have h := h.step failing (rfl : step ⟨failing, ⟨0, 0⟩⟩ .splitter _ = some _)
  have h := h.step failing (rfl : step ⟨failing, ⟨0, 0⟩⟩ (.worker 0) _ = some _)
  have h := h.step failing (rfl : step ⟨failing, ⟨0, 0⟩⟩ (.worker 0) _ = some _)
  -- a chunk is queued, and the splitter has one in its hands
  have h := h.step failing (rfl : step ⟨failing, ⟨0, 0⟩⟩ .splitter _ = some _)
  have h := h.step failing (rfl : step ⟨failing, ⟨0, 0⟩⟩ .splitter _ = some _)
  have h := h.step failing (rfl : step ⟨failing, ⟨0, 0⟩⟩ .splitter _ = some _)
  have h' := h.step failing (rfl : step ⟨failing, ⟨0, 0⟩⟩ .collector _ = some _)
  have hkeeps := (backpressure ⟨0, 0⟩ (⟨0⟩ : EndlessFeed)).2 _ _ _ _ h'
  exact ⟨_, _, _, _, h, rfl, h', ⟨_, rfl⟩, fun _ _ => hkeeps.fetched_le ⟨_, rfl⟩⟩

end Pipeline

end MessageFraming
