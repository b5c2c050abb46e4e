import MessageFraming.Proofs.Chunk.Partition
import MessageFraming.Proofs.Decode.Endings

/-!
# Every run of a pipeline ends

Splitter, workers and collector wait for each other at two queues of bounded size. They never all
wait at once: whoever waits at a full queue waits for someone who can take from it, and whoever
waits at an empty one for someone who can put into it or leave. This needs room for one item in each
queue, and nothing else of the state.

* `Pipeline.exists_step`: as long as the call has not returned, somebody can take a step.
* `Pipeline.Run.weight_lt`: every step makes the state lighter, if the feed comes to an end.
* `Pipeline.every_run_ends`: so every run that goes on as long as it can is finite, and the call has
  returned at its end.
* `Pipeline.exists_run_decodeParallelWith`: a call follows one of these runs.
-/

namespace MessageFraming

namespace Pipeline

variable {σ : Type} [ChunkFeed σ]

/-! ## Somebody can move -/

/-- The splitter moves if there is room in its queue, or nobody to wait for. -/
theorem splitter_steps (p : Pipeline) {s : State σ} (hlive : s.splitter.isDone = false)
    (hroom : s.chunks = [] ∨ s.workers.all Worker.isDone) : ∃ s', p.step .splitter s = some s' := by
  show ∃ s', p.stepSplitter s = some s'
  unfold stepSplitter
  cases hs : s.splitter with
  | reading =>
    rcases ChunkFeed.next s.feed with ⟨(_ | chunk) | e | message, feed⟩
    all_goals exact ⟨_, rfl⟩
  | sending chunk =>
    by_cases hgone : s.workers.all Worker.isDone
    · exact ⟨_, if_pos hgone⟩
    · -- with somebody left to receive, the queue is empty and so has room
      have hempty := hroom.resolve_right hgone
      have hcapacity : s.chunks.length < p.capacity := by
        rw [hempty]
        exact p.profile.raised_inflight_pos
      simp only [if_neg hgone, if_pos hcapacity]
      exact ⟨_, rfl⟩
  | done how =>
    rw [hs] at hlive
    cases hlive

/-- A worker that is at work moves, or the splitter does for which it waits. Only a full queue of
results can hold it up, as long as it is open. -/
theorem worker_steps (p : Pipeline) {s : State σ} {i : Nat} {w : Worker}
    (hw : s.workers[i]? = some w) (hlive : w.isDone = false)
    (hroom : s.collecting.isOpen → s.results = []) :
    ∃ actor s', p.step actor s = some s' := by
  have hself : (∃ s', p.stepWorker i s = some s') → ∃ actor s', p.step actor s = some s' :=
    fun ⟨s', hstep⟩ => ⟨.worker i, s', hstep⟩
  unfold stepWorker at hself
  rw [hw] at hself
  cases w with
  | idle =>
    cases hc : s.chunks with
    | cons chunk chunks =>
      simp only [hc] at hself
      exact hself ⟨_, rfl⟩
    | nil =>
      cases hs : s.splitter.isDone with
      | true =>
        simp only [hc, hs, if_true] at hself
        exact hself ⟨_, rfl⟩
      | false =>
        -- an empty queue is a reason to wait only while the splitter can fill it
        obtain ⟨s', hstep⟩ := splitter_steps p hs (Or.inl hc)
        exact ⟨.splitter, s', hstep⟩
  | decoding chunk =>
    apply hself
    simp only
    cases p.decode chunk <;> exact ⟨_, rfl⟩
  | sending result =>
    apply hself
    simp only
    by_cases hc : s.collecting.isOpen
    · have hcapacity : s.results.length < p.capacity := by
        rw [hroom hc]
        exact p.profile.raised_inflight_pos
      rw [if_pos hc, if_pos hcapacity]
      exact ⟨_, rfl⟩
    · rw [if_neg hc]
      exact ⟨_, rfl⟩
  | left => cases hlive
  | crashed => cases hlive

/-- The collector moves if it has something to receive, or nobody to wait for; and it closes its
queue behind a failure, whatever there is to receive. -/
theorem collector_steps (p : Pipeline) {s : State σ} (hc : s.collecting.isOpen)
    (hready : s.results ≠ [] ∨ s.workers.all Worker.isDone) :
    ∃ s', p.step .collector s = some s' := by
  show ∃ s', stepCollector s = some s'
  unfold stepCollector
  cases hcollecting : s.collecting with
  | receiving collector =>
    -- it takes a result if there is one, and otherwise all workers have gone
    cases hr : s.results with
    | cons result results =>
      simp only
      cases result.bind collector.push <;> exact ⟨_, rfl⟩
    | nil =>
      have hgone := hready.resolve_left (fun hne => hne hr)
      exact ⟨_, if_pos hgone⟩
  -- exact => it closes its queue
  | failed e => exact ⟨_, rfl⟩
  | stopped e =>
    rw [hcollecting] at hc
    cases hc
  | drained collector =>
    rw [hcollecting] at hc
    cases hc

/-- If not all workers are done, some worker can still be asked to step. -/
theorem exists_live_worker {workers : List Worker} (h : ¬ workers.all Worker.isDone) :
    ∃ (i : Nat) (w : Worker), workers[i]? = some w ∧ w.isDone = false := by
  obtain ⟨w, hmem, hlive⟩ : ∃ w ∈ workers, w.isDone = false := by simpa using h
  obtain ⟨i, hi⟩ := List.mem_iff_getElem?.mp hmem
  exact ⟨i, w, hi, hlive⟩

/-- **No deadlock.** As long as the call has not returned, somebody can take a step. -/
theorem exists_step (p : Pipeline) {s : State σ} (hfinal : ¬ s.isFinal) :
    ∃ actor s', p.step actor s = some s' := by
  by_cases hgone : s.workers.all Worker.isDone
  · -- all workers are done: the collector drains its queue and ends
    by_cases hc : s.collecting.isOpen
    · obtain ⟨s', hstep⟩ := collector_steps p hc (Or.inr hgone)
      exact ⟨.collector, s', hstep⟩
    · -- what is left is the splitter, and nobody holds it up
      have hlive : s.splitter.isDone = false := by
        simpa [State.isFinal, hgone, hc] using hfinal
      obtain ⟨s', hstep⟩ := splitter_steps p hlive (Or.inr hgone)
      exact ⟨.splitter, s', hstep⟩
  · -- a worker is at work, unless a full queue holds it up that the collector can take from
    obtain ⟨i, w, hw, hlive⟩ := exists_live_worker hgone
    by_cases hready : s.collecting.isOpen ∧ s.results ≠ []
    · obtain ⟨s', hstep⟩ := collector_steps p hready.1 (Or.inl hready.2)
      exact ⟨.collector, s', hstep⟩
    · apply worker_steps p hw hlive
      intro hc
      exact Classical.not_not.mp fun hne => hready ⟨hc, hne⟩

/-! ## Every move costs something -/

section

variable {profile : Profile} {feed : σ} {events : List Event} {s : State σ} {n : Nat}

/-- The feed of a run comes to an end as the one that it started on does. -/
theorem Run.toCome_lt (h : Run profile feed events s) (hfeed : ChunkFeed.EndsAfter n feed)
    (hs : s.splitter = .reading) {chunk : Chunk} {rest : σ}
    (hnext : ChunkFeed.next s.feed = (.ok (some chunk), rest)) :
    ChunkFeed.toCome rest < ChunkFeed.toCome s.feed := by
  obtain ⟨before, last, hemits, hlast, -⟩ := h.fed
  rw [hs] at hlast
  cases hlast
  obtain ⟨m, -, hend⟩ := hfeed.of_emits hemits
  exact hend.toCome_lt hnext

/-- **Every step makes the state lighter**, whatever the decoder answers. -/
theorem Run.weight_lt (h : Run profile feed events s) (hfeed : ChunkFeed.EndsAfter n feed)
    {decode : Chunk → Outcome StreamError DecodedChunk} {actor : Actor} {s' : State σ}
    (hstep : Pipeline.step ⟨decode, profile⟩ actor s = some s') :
    weight ChunkFeed.toCome s' < weight ChunkFeed.toCome s := by
  refine Pipeline.weight_lt (fun hs => ?_) hstep
  intro chunk rest hnext
  exact h.toCome_lt hfeed hs hnext

/-- Each idle worker weighs the one step that it takes to end. -/
theorem workersWeight_replicate (n : Nat) : workersWeight (List.replicate n .idle) = n := by
  induction n with
  | zero => rfl
  | succ n ih =>
    rw [List.replicate_succ, workersWeight, ih, Nat.add_comm]
    rfl

/-- What a run weighs at its start: six for each chunk, one for each worker, and one each for
splitter and collector. -/
theorem weight_start (hfeed : ChunkFeed.EndsAfter n feed) (p : Pipeline) :
    weight ChunkFeed.toCome (p.start feed) = 6 * n + p.profile.raised.workers + 2 := by
  have hworkers := workersWeight_replicate p.workerCount
  show 6 * ChunkFeed.toCome feed + 1 + 4 * 0 + workersWeight (List.replicate p.workerCount .idle)
    + 0 + 1 = _
  rw [hfeed.toCome_eq, hworkers, workerCount]
  omega

end

/-! ## Runs that go on as long as they can -/

/-- A run followed step by step: `path m` is the state behind `m` steps, and `none` once the run is
over. It may be over only where nobody can take a step. -/
structure MaximalRun (profile : Profile) (feed : σ) (path : Nat → Option (State σ)) : Prop where
  first : ∃ decode, path 0 = some (start ⟨decode, profile⟩ feed)
  goesOn : ∀ m s, path m = some s →
    (∃ decode actor s', step ⟨decode, profile⟩ actor s = some s' ∧ path (m + 1) = some s')
      ∨ (path (m + 1) = none ∧ ∃ decode, ∀ actor, step ⟨decode, profile⟩ actor s = none)
  staysOver : ∀ m, path m = none → path (m + 1) = none

section

variable {profile : Profile} {feed : σ} {path : Nat → Option (State σ)} {n : Nat}

/-- A path that has ended stays so. -/
theorem MaximalRun.over_of_le (h : MaximalRun profile feed path) {m k : Nat} (hm : path m = none)
    (hk : m ≤ k) : path k = none := by
  induction hk with
  | refl => exact hm
  | step _ ih => exact h.staysOver _ ih

/-- From any state on its path a run comes to an end where the call has returned. Strong induction
on the weight of the state. -/
theorem MaximalRun.ends_from (h : MaximalRun profile feed path)
    (hfeed : ChunkFeed.EndsAfter n feed) {m : Nat} {events : List Event} {s : State σ}
    (hs : path m = some s) (hrun : Run profile feed events s) :
    ∃ k events' last, k ≤ m + weight ChunkFeed.toCome s ∧ path k = some last
      ∧ Run profile feed events' last ∧ last.isFinal ∧ path (k + 1) = none := by
  induction hw : weight ChunkFeed.toCome s using Nat.strongRecOn generalizing m events s with
  | ind w ih =>
    rcases h.goesOn m s hs with ⟨decode, actor, s', hstep, hnext⟩ | ⟨hover, decode, hstuck⟩
    · have hlt := hrun.weight_lt hfeed hstep
      obtain ⟨k, events', last, hk, hlast, hrun', hfinal, hover⟩ :=
        ih _ (hw ▸ hlt) hnext (.step decode hrun hstep) rfl
      exact ⟨k, events', last, by omega, hlast, hrun', hfinal, hover⟩
    · refine ⟨m, events, s, Nat.le_add_right m w, hs, hrun, ?_, hover⟩
      -- nobody can move, and that is so only once the call has returned
      refine Classical.not_not.mp fun hfinal => ?_
      obtain ⟨actor, s', hstep⟩ := exists_step ⟨decode, profile⟩ hfinal
      rw [hstuck actor] at hstep
      cases hstep

/-- **A pipeline never gets stuck, and every run of it ends.** Let the feed hand out `n` chunks and
then end, fail or crash, and let the decoder answer each call in any way. As long as the call has
not returned, somebody can take a step; every step makes the state lighter; and a run that goes on
as long as it can takes no more than six steps for each chunk, one for each worker and two, and ends
where the call has returned. -/
theorem every_run_ends (hfeed : ChunkFeed.EndsAfter n feed) (profile : Profile) :
    (∀ events s, Run profile feed events s → ¬ s.isFinal →
        ∀ decode, ∃ actor s', step ⟨decode, profile⟩ actor s = some s')
      ∧ (∀ events s, Run profile feed events s → ∀ decode actor s',
        step ⟨decode, profile⟩ actor s = some s' →
          weight ChunkFeed.toCome s' < weight ChunkFeed.toCome s)
      ∧ ∀ path, MaximalRun profile feed path →
        ∃ m events s, m ≤ 6 * n + profile.raised.workers + 2 ∧ path m = some s
          ∧ Run profile feed events s ∧ s.isFinal ∧ ∀ k, m < k → path k = none := by
  refine ⟨fun events s _ hfinal decode => exists_step _ hfinal,
    fun events s hrun decode actor s' hstep => hrun.weight_lt hfeed hstep, fun path hpath => ?_⟩
  obtain ⟨decode, hfirst⟩ := hpath.first
  obtain ⟨m, events, s, hm, hs, hrun, hfinal, hover⟩ :=
    hpath.ends_from hfeed hfirst (.start decode)
  rw [weight_start hfeed, Nat.zero_add] at hm
  exact ⟨m, events, s, hm, hs, hrun, hfinal, fun k hk => hpath.over_of_le hover hk⟩

end

/-! ## One such run -/

/-- The path that `Pipeline.run` takes: of all actors that can move the first one does. -/
def path (p : Pipeline) (feed : σ) : Nat → Option (State σ)
  | 0 => some (p.start feed)
  | m + 1 => (path p feed m).bind fun s => p.actors.findSome? fun actor => p.step actor s

/-- What the path comes through is reachable. -/
theorem reachable_of_path {p : Pipeline} {feed : σ} {m : Nat} {s : State σ}
    (h : p.path feed m = some s) : Reachable p feed s := by
  induction m generalizing s with
  | zero =>
    cases h
    exact .start
  | succ m ih =>
    obtain ⟨before, hbefore, hstep⟩ := Option.bind_eq_some_iff.mp h
    obtain ⟨actor, -, hactor⟩ := List.exists_of_findSome?_eq_some hstep
    exact .step (ih hbefore) ⟨actor, hactor⟩

/-- Nobody else can move either: there are no other workers. -/
theorem Run.step_eq_none {p : Pipeline} {feed : σ} {events : List Event} {s : State σ}
    (hrun : Run p.profile feed events s)
    (h : (p.actors.findSome? fun actor => p.step actor s) = none) (actor : Actor) :
    p.step actor s = none := by
  rw [List.findSome?_eq_none_iff] at h
  cases actor with
  | splitter => exact h .splitter (by simp [actors])
  | collector => exact h .collector (by simp [actors])
  | worker i =>
    by_cases hi : i < p.workerCount
    · exact h (.worker i) (by simp [actors, hi])
    · -- there is no such worker
      have hnone : s.workers[i]? = none := by
        rw [List.getElem?_eq_none_iff, hrun.workers_length]
        exact Nat.not_lt.mp hi
      show p.stepWorker i s = none
      rw [stepWorker, hnone]

/-- The path that a pipeline takes by itself is one of its maximal runs. -/
theorem maximalRun_path (p : Pipeline) (feed : σ) : MaximalRun p.profile feed (p.path feed) where
  first := ⟨p.decode, rfl⟩
  goesOn m s hs := by
    obtain ⟨events, hrun, -⟩ := reachable_iff.mp (reachable_of_path hs)
    have hnext : p.path feed (m + 1) = p.actors.findSome? fun actor => p.step actor s := by
      rw [path, hs, Option.bind_some]
    rw [hnext]
    cases hstep : p.actors.findSome? fun actor => p.step actor s with
    | none => exact Or.inr ⟨rfl, p.decode, hrun.step_eq_none hstep⟩
    | some s' =>
      obtain ⟨actor, -, hactor⟩ := List.exists_of_findSome?_eq_some hstep
      exact Or.inl ⟨p.decode, actor, s', hactor, rfl⟩
  staysOver m hm := by rw [path, hm, Option.bind_none]

/-- `Pipeline.run` goes on until the call has returned. -/
theorem Reachable.run_isFinal {σ : Type} [FiniteChunkFeed σ] {p : Pipeline} {feed : σ} {s : State σ}
    (h : Reachable p feed s) : (p.run s).isFinal := by
  fun_induction Pipeline.run p s with
  | case1 s s' hstep ih =>
    obtain ⟨actor, -, hactor⟩ := List.exists_of_findSome?_eq_some hstep
    exact ih (.step h ⟨actor, hactor⟩)
  | case2 s hstep =>
    -- nobody can move, and that is so only once the call has returned
    refine Classical.not_not.mp fun hfinal => ?_
    obtain ⟨events, hrun, -⟩ := reachable_iff.mp h
    obtain ⟨actor, s', hmove⟩ := exists_step p hfinal
    rw [hrun.step_eq_none hstep actor] at hmove
    cases hmove

/-- **A call follows a run to its end**, and returns what this run comes to. -/
theorem exists_run_decodeParallelWith {σ : Type} [FiniteChunkFeed σ] (feed : σ) (profile : Profile)
    (decode : Chunk → Outcome StreamError DecodedChunk) :
    ∃ events s, Run profile feed events s ∧ Follows decode events ∧ s.isFinal
      ∧ decodeParallelWith feed profile decode = s.result := by
  have hstart : Reachable ⟨decode, profile⟩ feed _ := .start
  obtain ⟨events, hrun, hfollows⟩ := reachable_iff.mp hstart.run
  exact ⟨events, _, hrun, hfollows, hstart.run_isFinal, rfl⟩

/-- Three chunks and a profile of zeros. -/
theorem every_run_ends_choppySource :
    ∃ m s, m ≤ 21 ∧ path ⟨Chunk.decoded, ⟨0, 0⟩⟩ Chunker.choppyChunker m = some s ∧ s.isFinal := by
  have hdrain : (ChunkFeed.drain Chunker.choppyChunker).1 = .ok Chunker.choppyChunks := by
    decide +kernel
  have hfeed : ChunkFeed.EndsAfter 3 Chunker.choppyChunker :=
    ChunkFeed.endsAfter_of_drain (Prod.ext hdrain rfl)
  obtain ⟨-, -, hends⟩ := every_run_ends hfeed ⟨0, 0⟩
  obtain ⟨m, events, s, hm, hs, -, hfinal, -⟩ :=
    hends _ (maximalRun_path ⟨Chunk.decoded, ⟨0, 0⟩⟩ Chunker.choppyChunker)
  exact ⟨m, s, hm, hs, hfinal⟩

end Pipeline

end MessageFraming
