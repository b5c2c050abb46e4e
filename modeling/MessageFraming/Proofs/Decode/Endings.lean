import MessageFraming.Proofs.Chunk.Emission
import MessageFraming.Proofs.Decode.Runs

/-!
# How the parts of a pipeline end

Each part of a pipeline ends for a reason, and its state tells the reason. Every lemma here is an
invariant of runs, by induction on the moves.

* `Pipeline.Run.fed`: what the feed has answered, and how the splitter stands.
* `Pipeline.Run.crashed_iff`: a worker has crashed exactly when a call of the decoder has.
* `Pipeline.Run.of_drained`: a drained collector has nobody left to wait for.
* `Pipeline.Run.of_left`: a worker leaves when the collector has stopped or no chunk can come.
* `Pipeline.Run.of_workersGone`: the splitter is refused only after a crash of a worker or a stop of
  the collector.
-/

namespace MessageFraming

namespace Pipeline

variable {σ : Type}

/-- The failure that a collector has met. -/
def failure? : Collecting → Option StreamError
  | .failed e | .stopped e => some e
  | .receiving _ | .drained _ => none

/-- The collector has met a failure. It receives nothing any more, and has closed its queue or is
about to. -/
def State.HasStopped (s : State σ) : Prop := ∃ e, failure? s.collecting = some e

/-- While a worker has something to do, not all of them are done. -/
theorem not_all_isDone {workers : List Worker} {i : Nat} {w : Worker} (hw : workers[i]? = some w)
    (hlive : w.isDone = false) : ¬ workers.all Worker.isDone := by
  intro hall
  have := List.all_eq_true.mp hall w (List.mem_of_getElem? hw)
  rw [hlive] at this
  cases this

/-- Whether anyone else than worker `i` before was a `u`, or worker `i` has become one. -/
theorem mem_set_iff_of_ne {workers : List Worker} {i : Nat} {w v u : Worker}
    (hw : workers[i]? = some w) (hne : w ≠ u) : u ∈ workers.set i v ↔ v = u ∨ u ∈ workers := by
  constructor
  · intro hmem
    rcases List.mem_or_eq_of_mem_set hmem with hmem | heq
    · exact Or.inr hmem
    · exact Or.inl heq.symm
  · rintro (rfl | hmem)
    · exact List.mem_set (List.getElem?_eq_some_iff.mp hw).1 v
    · obtain ⟨j, hj⟩ := List.mem_iff_getElem?.mp hmem
      -- `u` stands elsewhere, since the worker that is replaced is not `u`
      have hij : i ≠ j := by
        rintro rfl
        rw [hw, Option.some.injEq] at hj
        exact hne hj
      rw [List.mem_iff_getElem?]
      exact ⟨j, by rw [List.getElem?_set_ne hij, hj]⟩

variable [ChunkFeed σ] {profile : Profile} {feed : σ} {events : List Event} {s : State σ}

/-! ## The feed -/

/-- `LastAnswer before splitter after last`: with no chunk left to speak of, the feed stood at
`before`. It stands at `after` now, because of the answer `last` that has ended the splitter, if it
was an answer that has ended it. -/
inductive LastAnswer (before : σ) :
    Splitter → σ → List (Outcome ChunkError (Option Chunk)) → Prop where
  | reading : LastAnswer before .reading before []
  | sending (chunk : Chunk) : LastAnswer before (.sending chunk) before []
  | refused : LastAnswer before (.done (.failed .workersGone)) before []
  | ended {after : σ} : ChunkFeed.next before = (.ok none, after) →
      LastAnswer before (.done .ended) after [.ok none]
  | failed {e : ChunkError} {after : σ} : ChunkFeed.next before = (.error e, after) →
      LastAnswer before (.done (.failed (.chunk e))) after [.error e]
  | crashed {message : String} {after : σ} : ChunkFeed.next before = (.crash message, after) →
      LastAnswer before (.done .crashed) after [.crash message]

/-- **What the feed has answered**: chunks, which are what it has handed out, and behind them the
last answer. -/
theorem Run.fed (h : Run profile feed events s) :
    ∃ before last, ChunkFeed.Emits feed (produced events) before
      ∧ LastAnswer before s.splitter s.feed last
      ∧ answers events = (produced events).map (fun chunk => .ok (some chunk)) ++ last := by
  induction h using Run.induction with
  | start decode => exact ⟨feed, [], .start, .reading, rfl⟩
  | @move events s seen s' hrun hmove hrun' ih =>
    obtain ⟨before, last, hemits, hlast, hanswers⟩ := ih
    cases hmove with
    -- only a chunk is handed out; all other answers are the last one
    | @fetched chunk feed' hs hnext =>
      rw [hs] at hlast
      cases hlast
      refine ⟨feed', [], ?_, .sending chunk, by simp [hanswers]⟩
      rw [produced_append]
      exact .next hemits hnext
    | ended hs hnext =>
      rw [hs] at hlast
      cases hlast
      exact ⟨s.feed, _, by simpa using hemits, .ended hnext, by simp [hanswers]⟩
    | feedFailed hs hnext =>
      rw [hs] at hlast
      cases hlast
      exact ⟨s.feed, _, by simpa using hemits, .failed hnext, by simp [hanswers]⟩
    | feedCrashed hs hnext =>
      rw [hs] at hlast
      cases hlast
      exact ⟨s.feed, _, by simpa using hemits, .crashed hnext, by simp [hanswers]⟩
    -- the splitter goes on or gives up without asking the feed
    | refused hs hgone =>
      rw [hs] at hlast
      cases hlast
      exact ⟨s.feed, [], by simpa using hemits, .refused, by simp [hanswers]⟩
    | queued hs halive hroom =>
      rw [hs] at hlast
      cases hlast
      exact ⟨s.feed, [], by simpa using hemits, .reading, by simp [hanswers]⟩
    | _ => exact ⟨before, last, by simpa using hemits, hlast, by simp [hanswers]⟩

/-! ## The workers -/

/-- Workers neither join nor leave. -/
theorem Move.workers_length {capacity : Nat} {seen : List Event} {s' : State σ}
    (h : Move capacity s seen s') : s'.workers.length = s.workers.length := by
  cases h <;> first | rfl | exact List.length_set

/-- Nobody hires or fires workers. -/
theorem Run.workers_length (h : Run profile feed events s) :
    s.workers.length = profile.raised.workers := by
  induction h using Run.induction with
  | start decode => exact List.length_replicate
  | move hrun hmove hrun' ih => exact hmove.workers_length.trans ih

/-- There is a worker at any time, idle or not. -/
theorem Run.workers_ne_nil (h : Run profile feed events s) : s.workers ≠ [] := by
  have hpos := profile.raised_workers_pos
  rw [← h.workers_length] at hpos
  exact List.length_pos_iff.mp hpos

/-- Workers crash in the decoder and nowhere else. -/
theorem Run.crashed_iff (h : Run profile feed events s) :
    .crashed ∈ s.workers ↔ ∃ chunk message, (chunk, .crash message) ∈ decodings events := by
  induction h using Run.induction with
  | start decode =>
    constructor
    · intro hmem
      cases List.eq_of_mem_replicate hmem
    · rintro ⟨chunk, message, hmem⟩
      cases hmem
  | move hrun hmove hrun' ih =>
    cases hmove with
    -- these replace a worker by one that has not crashed
    | took hw | retired hw | delivered hw | dropped hw =>
      rw [mem_set_iff_of_ne hw (by simp), List.append_nil, ih]
      simp
    -- a decoding leaves a crashed worker just where it crashed
    | @decoded i chunk outcome hw =>
      rw [mem_set_iff_of_ne hw (by simp), ih]
      cases outcome with
      | ok decoded => simp [workerAfter]
      | error e => simp [workerAfter]
      | crash message =>
        simp only [workerAfter, true_or, true_iff]
        refine ⟨chunk, message, ?_⟩
        rw [decodings_append]
        exact List.mem_append_right _ (List.mem_singleton_self _)
    | _ => simpa using ih

/-! ## The collector -/

/-- A collector that has seen all senders go has taken every result. -/
theorem Run.of_drained (h : Run profile feed events s) {collector : Collector}
    (hc : s.collecting = .drained collector) : s.workers.all Worker.isDone ∧ s.results = [] := by
  induction h using Run.induction with
  | start decode => cases hc
  | move hrun hmove hrun' ih =>
    cases hmove with
    | took hw | retired hw | decoded _ hw | delivered hw | dropped hw =>
      -- no worker was left to make this move
      exact absurd (ih hc).1 (not_all_isDone hw rfl)
    | accepted | rejected | failed | closed => cases hc
    | drained hc' hr hgone => exact ⟨hgone, hr⟩
    | _ => exact ih hc

/-- A collector has closed its queue only because of a failure, as long as a worker is at work. -/
theorem Run.hasStopped (h : Run profile feed events s) (hc : ¬ s.collecting.isOpen)
    (hlive : ¬ s.workers.all Worker.isDone) : s.HasStopped := by
  cases hcollecting : s.collecting with
  | receiving collector | failed e =>
    rw [hcollecting] at hc
    exact absurd rfl hc
  | stopped e => exact ⟨e, congrArg failure? hcollecting⟩
  | drained collector => exact absurd (h.of_drained hcollecting).1 hlive

/-- A worker leaves only when the collector has stopped, or when no chunk is left and none can
come. -/
theorem Run.of_left (h : Run profile feed events s) (hleft : .left ∈ s.workers) :
    s.HasStopped ∨ s.chunks = [] ∧ s.splitter.isDone := by
  induction h using Run.induction with
  | start decode => cases List.eq_of_mem_replicate hleft
  | @move events s seen s' hrun hmove hrun' ih =>
    -- a worker that does not leave now has left before
    have hkept : ∀ {i : Nat} {w v : Worker}, s.workers[i]? = some w → w ≠ .left → v ≠ .left →
        .left ∈ s.workers.set i v → s.HasStopped ∨ s.chunks = [] ∧ s.splitter.isDone := by
      intro i w v hw hne hnot hmem
      rcases (mem_set_iff_of_ne hw hne).mp hmem with heq | hmem
      · exact absurd heq hnot
      · exact ih hmem
    cases hmove with
    | fetched hs | queued hs =>
      -- the splitter is still at work, so only a stop can have made a worker leave
      rcases ih hleft with hstopped | ⟨-, hdone⟩
      · exact Or.inl hstopped
      · rw [hs] at hdone
        cases hdone
    | ended | feedFailed | feedCrashed | refused =>
      rcases ih hleft with hstopped | ⟨hchunks, -⟩
      · exact Or.inl hstopped
      · exact Or.inr ⟨hchunks, rfl⟩
    | took hw hc =>
      rcases hkept hw (by simp) (by simp) hleft with hstopped | ⟨hchunks, -⟩
      · exact Or.inl hstopped
      · rw [hchunks] at hc
        cases hc
    | retired hw hc hs => exact Or.inr ⟨hc, hs⟩
    | decoded outcome hw =>
      refine hkept hw (by simp) ?_ hleft
      cases outcome <;> simp [workerAfter]
    | delivered hw hc hroom => exact hkept hw (by simp) (by simp) hleft
    | dropped hw hc => exact Or.inl (hrun.hasStopped hc (not_all_isDone hw rfl))
    | accepted hc | drained hc =>
      rcases ih hleft with ⟨e, he⟩ | hquiet
      · rw [hc] at he
        cases he
      · exact Or.inr hquiet
    | rejected | failed | closed => exact Or.inl ⟨_, rfl⟩

/-! ## The splitter -/

/-- **A refused splitter is never the first to fail**: a worker has crashed, or the collector has
stopped. -/
theorem Run.of_workersGone (h : Run profile feed events s)
    (hs : s.splitter = .done (.failed .workersGone)) : .crashed ∈ s.workers ∨ s.HasStopped := by
  induction h using Run.induction with
  | start decode => cases hs
  | @move events s seen s' hrun hmove hrun' ih =>
    cases hmove with
    | refused hs' hgone =>
      -- all workers are done, and there is at least one to ask why
      obtain ⟨w, hmem⟩ := List.exists_mem_of_ne_nil s.workers hrun.workers_ne_nil
      have hdone := List.all_eq_true.mp hgone w hmem
      cases w with
      | left =>
        rcases hrun.of_left hmem with hstopped | ⟨-, hsplitter⟩
        · exact Or.inr hstopped
        · rw [hs'] at hsplitter
          cases hsplitter
      | crashed => exact Or.inl hmem
      | idle => cases hdone
      | decoding chunk => cases hdone
      | sending result => cases hdone
    | fetched | ended | feedFailed | feedCrashed | queued => cases hs
    | took hw | retired hw | decoded _ hw | delivered hw | dropped hw =>
      -- a worker that moves has not crashed
      rcases ih hs with hcrashed | hstopped
      · exact Or.inl ((mem_set_iff_of_ne hw (by simp)).mpr (Or.inr hcrashed))
      · exact Or.inr hstopped
    | accepted hc | rejected hc | failed hc | drained hc =>
      -- a collector that receives has not stopped
      rcases ih hs with hcrashed | ⟨e, he⟩
      · exact Or.inl hcrashed
      · rw [hc] at he
        cases he
    | closed => exact Or.inr ⟨_, rfl⟩

end Pipeline

end MessageFraming
