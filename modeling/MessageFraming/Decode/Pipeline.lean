import MessageFraming.Decode.Collector
import MessageFraming.Decode.Profile

/-!
# Parallel decoding

A splitter takes chunks from a feed, workers decode them, and a collector puts the results in order.
Between them stand two bounded queues:

    splitter ── chunks ──▶ workers ── results ──▶ collector

The pipeline is a transition system. An `Actor` (the splitter, a worker or the collector) either is
blocked or has exactly one next step (`Pipeline.step`), and an interleaving is any order in which
actors take steps (`Pipeline.Step`, `Pipeline.Reachable`). The rules of the queues:

- a send waits while the queue is full and someone may still receive; once nobody can, it is
  refused;
- a receive waits while the queue is empty and someone may still send; once nobody can, it ends.

The collector receives up to the first failure. Then it closes its queue, which is a step of its
own: receiving the failure has made room, and until the queue is closed a worker may still send into
it and go on to another chunk. Once the queue has no receiver, the workers leave at their next send,
and with them gone the splitter's next send is refused: this is how an abort travels back to the
source.

Splitter and workers give up their ends of the queues in the step in which they end. Whatever others
do while such an end is still held they can do before that step as well, so no interleaving is lost.
The same goes for the ends that the caller holds until it has started all workers.

Every step makes the state lighter (`Pipeline.weight_lt`), so no interleaving goes on forever, and
`Pipeline.run` can follow one of them to its end.
-/

namespace MessageFraming

/-- How the splitter ended. -/
inductive SplitEnd where
  | ended
  | failed (cause : StreamError)
  | crashed
deriving Repr, DecidableEq

inductive Splitter where
  /-- About to take a chunk from the feed. -/
  | reading
  | sending (chunk : Chunk)
  | done (how : SplitEnd)
deriving Repr, DecidableEq

/-- What a worker reports for a chunk. -/
abbrev DecodeResult := Except StreamError DecodedChunk

inductive Worker where
  /-- About to receive a chunk. -/
  | idle
  | decoding (chunk : Chunk)
  | sending (result : DecodeResult)
  | left
  | crashed

inductive Collecting where
  | receiving (collector : Collector)
  /-- A chunk failed, or could not be put in order. Nothing is received any more, but the queue is
  still open. -/
  | failed (cause : StreamError)
  /-- Has failed, and closed the queue. -/
  | stopped (cause : StreamError)
  /-- Every worker has left and every result was received. -/
  | drained (collector : Collector)

def Splitter.isDone : Splitter → Bool
  | done _ => true
  | _ => false

def Worker.isDone : Worker → Bool
  | left | crashed => true
  | _ => false

def Worker.isCrashed : Worker → Bool
  | crashed => true
  | _ => false

/-- A worker's share of the weight of a state. -/
def Worker.weight : Worker → Nat
  | idle => 1
  | decoding _ => 4
  | sending _ => 3
  | left | crashed => 0

/-- Whether its queue has a receiver. -/
def Collecting.isOpen : Collecting → Bool
  | receiving _ | failed _ => true
  | stopped _ | drained _ => false

inductive Actor where
  | splitter
  | worker (i : Nat)
  | collector
deriving Repr, DecidableEq

/-- What stays the same during a run. -/
structure Pipeline where
  decode : Chunk → Outcome StreamError DecodedChunk
  profile : Profile

namespace Pipeline

structure State (σ : Type) where
  feed : σ
  splitter : Splitter
  chunks : List Chunk
  workers : List Worker
  results : List DecodeResult
  collecting : Collecting

variable {σ : Type}

/-- Room in each queue. -/
def capacity (p : Pipeline) : Nat := p.profile.raised.inflight

def workerCount (p : Pipeline) : Nat := p.profile.raised.workers

def start (p : Pipeline) (feed : σ) : State σ :=
  ⟨feed, .reading, [], List.replicate p.workerCount .idle, [], .receiving .empty⟩

/-! ## Steps -/

def stepSplitter [ChunkFeed σ] (p : Pipeline) (s : State σ) : Option (State σ) :=
  match s.splitter with
  | .reading =>
    match ChunkFeed.next s.feed with
    | (.ok (some chunk), feed) => some { s with feed, splitter := .sending chunk }
    | (.ok none, feed) => some { s with feed, splitter := .done .ended }
    | (.error e, feed) => some { s with feed, splitter := .done (.failed (.chunk e)) }
    | (.crash _, feed) => some { s with feed, splitter := .done .crashed }
  | .sending chunk =>
    if s.workers.all Worker.isDone then
      some { s with splitter := .done (.failed .workersGone) }
    else if s.chunks.length < p.capacity then
      some { s with splitter := .reading, chunks := s.chunks ++ [chunk] }
    else none
  | .done _ => none

def stepWorker (p : Pipeline) (i : Nat) (s : State σ) : Option (State σ) :=
  match s.workers[i]? with
  | some .idle =>
    match s.chunks with
    | chunk :: chunks => some { s with chunks, workers := s.workers.set i (.decoding chunk) }
    | [] => if s.splitter.isDone then some { s with workers := s.workers.set i .left } else none
  | some (.decoding chunk) =>
    match p.decode chunk with
    | .ok decoded => some { s with workers := s.workers.set i (.sending (.ok decoded)) }
    | .error e => some { s with workers := s.workers.set i (.sending (.error e)) }
    | .crash _ => some { s with workers := s.workers.set i .crashed }
  | some (.sending result) =>
    if s.collecting.isOpen then
      if s.results.length < p.capacity then
        some { s with results := s.results ++ [result], workers := s.workers.set i .idle }
      else none
    else some { s with workers := s.workers.set i .left }
  | some .left | some .crashed | none => none

def stepCollector (s : State σ) : Option (State σ) :=
  match s.collecting with
  | .receiving collector =>
    match s.results with
    | result :: results =>
      match result.bind collector.push with
      | .ok collector => some { s with results, collecting := .receiving collector }
      | .error e => some { s with results, collecting := .failed e }
    | [] =>
      if s.workers.all Worker.isDone then some { s with collecting := .drained collector } else none
  | .failed e => some { s with collecting := .stopped e }
  | .stopped _ | .drained _ => none

/-- The next step of an actor; none while it is blocked and once it is done. -/
def step [ChunkFeed σ] (p : Pipeline) : Actor → State σ → Option (State σ)
  | .splitter => p.stepSplitter
  | .worker i => p.stepWorker i
  | .collector => stepCollector

/-- Some actor takes a step. -/
def Step [ChunkFeed σ] (p : Pipeline) (s s' : State σ) : Prop := ∃ actor, p.step actor s = some s'

/-- The states that interleavings reach from a feed. -/
inductive Reachable [ChunkFeed σ] (p : Pipeline) (feed : σ) : State σ → Prop where
  | start : Reachable p feed (p.start feed)
  | step {s s' : State σ} : Reachable p feed s → p.Step s s' → Reachable p feed s'

/-! ## Results -/

/-- Everyone has ended, so that the call returns. -/
def State.isFinal (s : State σ) : Bool :=
  s.splitter.isDone && s.workers.all Worker.isDone && !s.collecting.isOpen

/-- What the call returns. Of several failures a crashed splitter comes first, then a crashed
worker, then the failure that stopped the collector, then the splitter's own, then a gap. -/
def State.result (s : State σ) : Except StreamError DecodedStream :=
  if s.splitter = .done .crashed then .error (.panicked "chunk splitter")
  else if s.workers.any Worker.isCrashed then .error (.panicked "decode worker")
  else
    match s.collecting, s.splitter with
    | .failed e, _ | .stopped e, _ => .error e
    | _, .done (.failed e) => .error e
    | .drained collector, _ => collector.finish
    | .receiving collector, _ => collector.finish

/-! ## Weight -/

/-- The splitter's share, where `left` bounds how many chunks a feed can still give. -/
def splitterWeight (left : σ → Nat) (s : State σ) : Nat :=
  match s.splitter with
  | .reading => 6 * left s.feed + 1
  | .sending _ => 6 * left s.feed + 6
  | .done _ => 0

/-- What all of `workers` together weigh. -/
def workersWeight : List Worker → Nat
  | [] => 0
  | w :: workers => w.weight + workersWeight workers

def collectorWeight (s : State σ) : Nat := if s.collecting.isOpen then 1 else 0

/-- Bounds the steps still to come: each chunk weighs less the further it has got. -/
def weight (left : σ → Nat) (s : State σ) : Nat :=
  splitterWeight left s + 4 * s.chunks.length + workersWeight s.workers + s.results.length
    + collectorWeight s

/-- Replacing one worker changes the weight by the difference of the two. -/
theorem workersWeight_set {workers : List Worker} {i : Nat} {w v : Worker}
    (h : workers[i]? = some w) :
    workersWeight (workers.set i v) + w.weight = workersWeight workers + v.weight := by
  induction workers generalizing i with
  | nil => simp at h
  | cons u us ih =>
    cases i with
    | zero =>
      simp only [List.getElem?_cons_zero, Option.some.injEq] at h
      subst h
      simp only [List.set_cons_zero, workersWeight]
      omega
    | succ i =>
      simp only [List.getElem?_cons_succ] at h
      have := ih h
      simp only [List.set_cons_succ, workersWeight]
      omega

/-- The splitter moves, and may pass a chunk on. What this makes of its own weight and of the queue
decides. -/
theorem weight_splitter_lt {left : σ → Nat} {s : State σ} {feed : σ} {splitter : Splitter}
    {chunks : List Chunk}
    (hlt : splitterWeight left { s with feed, splitter } + 4 * chunks.length
      < splitterWeight left s + 4 * s.chunks.length) :
    weight left { s with feed, splitter, chunks } < weight left s := by
  have hsame : splitterWeight left { s with feed, splitter, chunks }
    = splitterWeight left { s with feed, splitter } := rfl
  simp only [weight, collectorWeight, hsame]
  omega

/-- A worker moves, and may take a chunk or pass a result on. -/
theorem weight_worker_lt {left : σ → Nat} {s : State σ} {i : Nat} {w v : Worker}
    {chunks : List Chunk} {results : List DecodeResult} (hw : s.workers[i]? = some w)
    (hlt : 4 * chunks.length + v.weight + results.length
      < 4 * s.chunks.length + w.weight + s.results.length) :
    weight left { s with chunks, workers := s.workers.set i v, results } < weight left s := by
  have hsame : splitterWeight left { s with chunks, workers := s.workers.set i v, results }
    = splitterWeight left s := rfl
  have hset := workersWeight_set (v := v) hw
  simp only [weight, collectorWeight, hsame]
  omega

/-- The splitter pays for a chunk with what its feed has left, and for each of its other steps with
what it weighed more before. -/
theorem stepSplitter_weight_lt [ChunkFeed σ] {left : σ → Nat} {p : Pipeline} {s s' : State σ}
    (hleft : s.splitter = .reading → ∀ {chunk feed},
      ChunkFeed.next s.feed = (.ok (some chunk), feed) → left feed < left s.feed)
    (h : p.stepSplitter s = some s') : weight left s' < weight left s := by
  unfold stepSplitter at h
  split at h
  · next hs =>
    -- it reads; only a chunk keeps it going
    split at h
    · next chunk feed hnext =>
      cases h
      have hfewer := hleft hs hnext
      refine weight_splitter_lt ?_
      simp only [splitterWeight, hs]
      omega
    all_goals
      cases h
      refine weight_splitter_lt ?_
      simp only [splitterWeight, hs]
      omega
  · next chunk hs =>
    split at h
    · -- nobody is left to take the chunk
      cases h
      refine weight_splitter_lt ?_
      simp only [splitterWeight, hs]
      omega
    · split at h
      · cases h
        refine weight_splitter_lt ?_
        simp only [splitterWeight, hs, List.length_append, List.length_singleton]
        omega
      · cases h
  · cases h

/-- A worker pays with the chunk that it takes, which weighs more in the queue than in its hands,
and so on until the result is in the next queue. -/
theorem stepWorker_weight_lt {left : σ → Nat} {p : Pipeline} {i : Nat} {s s' : State σ}
    (h : p.stepWorker i s = some s') : weight left s' < weight left s := by
  unfold stepWorker at h
  split at h
  · next hw =>
    -- idle: it takes a chunk, or leaves
    split at h
    · next chunk chunks hchunks =>
      cases h
      refine weight_worker_lt hw ?_
      simp only [Worker.weight, hchunks, List.length_cons]
      omega
    · split at h
      · cases h
        refine weight_worker_lt hw ?_
        simp only [Worker.weight]
        omega
      · cases h
  · next chunk hw =>
    -- decoding: whatever the decoder answers, the chunk is done with
    split at h <;>
    · cases h
      refine weight_worker_lt hw ?_
      simp only [Worker.weight]
      omega
  · next result hw =>
    -- sending: the result goes into the queue, or the worker leaves with it
    split at h
    · split at h
      · cases h
        refine weight_worker_lt hw ?_
        simp only [Worker.weight, List.length_append, List.length_singleton]
        omega
      · cases h
    · cases h
      refine weight_worker_lt hw ?_
      simp only [Worker.weight]
      omega
  all_goals cases h

/-- The collector pays with the result that it receives, and for its end with no longer
being open. -/
theorem stepCollector_weight_lt {left : σ → Nat} {s s' : State σ}
    (h : stepCollector s = some s') : weight left s' < weight left s := by
  unfold stepCollector at h
  split at h
  · next collector hcollecting =>
    split at h
    · next result results hresults =>
      -- a result is received; the queue stays open, even if it was a failure
      split at h <;>
      · cases h
        simp only [weight, splitterWeight, collectorWeight, Collecting.isOpen, hcollecting,
          hresults, List.length_cons]
        omega
    · split at h
      · cases h
        simp only [weight, splitterWeight, collectorWeight, Collecting.isOpen, hcollecting, if_true,
          Bool.false_eq_true, if_false]
        omega
      · cases h
  · next e hcollecting =>
    -- the queue is closed
    cases h
    simp only [weight, splitterWeight, collectorWeight, Collecting.isOpen, hcollecting, if_true,
      Bool.false_eq_true, if_false]
    omega
  all_goals cases h

/-- Every step makes the state lighter, as long as a chunk leaves its feed with fewer to give. -/
theorem weight_lt [ChunkFeed σ] {left : σ → Nat} {p : Pipeline} {actor : Actor} {s s' : State σ}
    (hleft : s.splitter = .reading → ∀ {chunk feed},
      ChunkFeed.next s.feed = (.ok (some chunk), feed) → left feed < left s.feed)
    (h : p.step actor s = some s') : weight left s' < weight left s := by
  cases actor with
  | splitter => exact stepSplitter_weight_lt hleft h
  | worker i => exact stepWorker_weight_lt h
  | collector => exact stepCollector_weight_lt h

/-! ## One interleaving -/

def actors (p : Pipeline) : List Actor :=
  .splitter :: (List.range p.workerCount).map .worker ++ [.collector]

/-- Lets the first actor that is not blocked take a step, until all are. -/
def run [FiniteChunkFeed σ] (p : Pipeline) (s : State σ) : State σ :=
  match _h : p.actors.findSome? fun actor => p.step actor s with
  | some s' => run p s'
  | none => s
termination_by weight FiniteChunkFeed.budget s
decreasing_by
  obtain ⟨actor, -, hstep⟩ := List.exists_of_findSome?_eq_some _h
  exact weight_lt (fun _ => FiniteChunkFeed.budget_lt) hstep

end Pipeline

/-- Decodes the chunks of a feed in parallel, with a decoder of the caller's choice. The frames come
in the order of the stream; a failure takes all frames with it. -/
def decodeParallelWith {σ : Type} [FiniteChunkFeed σ] (feed : σ) (profile : Profile)
    (decode : Chunk → Outcome StreamError DecodedChunk) : Except StreamError DecodedStream :=
  let p : Pipeline := ⟨decode, profile⟩
  (p.run (p.start feed)).result

/-- Decodes the chunks of a feed in parallel. -/
def decodeParallel {σ : Type} [FiniteChunkFeed σ] (feed : σ) (profile : Profile) :
    Except StreamError DecodedStream :=
  decodeParallelWith feed profile Chunk.decoded

end MessageFraming
