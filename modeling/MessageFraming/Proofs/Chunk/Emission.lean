import MessageFraming.Chunk

/-!
# What a feed has handed out

`ChunkFeed.Emits feed chunks s`: called again and again, `feed` has handed out `chunks`, in this
order, and stands in state `s`. It is the run of a feed between two calls, with no word on how the
feed will go on; draining a feed is such a run up to its end (`drain_ends`, `drain_emits`).

`ChunkFeed.EndsAfter n feed` is the word on that: `n` chunks are to come, and then no more of them.
A feed may end, fail or crash there. Where it holds, `ChunkFeed.toCome feed` is that number.
-/

namespace MessageFraming

namespace ChunkFeed

inductive Emits {σ : Type} [ChunkFeed σ] (feed : σ) : List Chunk → σ → Prop where
  | start : Emits feed [] feed
  | next {chunks : List Chunk} {chunk : Chunk} {s s' : σ} :
      Emits feed chunks s → ChunkFeed.next s = (.ok (some chunk), s') →
        Emits feed (chunks ++ [chunk]) s'

section

variable {σ : Type} [FiniteChunkFeed σ]

/-- The loop of `drain_ends`: the accumulator holds what was handed out before. -/
theorem drainOnto_ends {feed s rest : σ} {newestFirst : List Chunk}
    {outcome : Outcome ChunkError (List Chunk)} (hbefore : Emits feed newestFirst.reverse s)
    (h : drainOnto newestFirst s = (outcome, rest)) :
    ∃ chunks last, Emits feed chunks last ∧ next last = (outcome.map fun _ => none, rest)
      ∧ ∀ found, outcome = .ok found → found = chunks := by
  fun_induction drainOnto newestFirst s with
  -- one more chunk was emitted; all other answers end the drain
  | case1 newestFirst s chunk s' hnext ih =>
    refine ih ?_ h
    rw [List.reverse_cons]
    exact .next hbefore hnext
  | case2 newestFirst s s' hnext =>
    cases h
    exact ⟨newestFirst.reverse, s, hbefore, hnext, fun found heq => by cases heq; rfl⟩
  | case3 newestFirst s e s' hnext =>
    cases h
    exact ⟨newestFirst.reverse, s, hbefore, hnext, fun found heq => by cases heq⟩
  | case4 newestFirst s message s' hnext =>
    cases h
    exact ⟨newestFirst.reverse, s, hbefore, hnext, fun found heq => by cases heq⟩

/-- **How a drain ends**: as the first call does that hands out no chunk. The chunks in front of it
are the answer, unless that call fails or crashes. -/
theorem drain_ends {feed rest : σ} {outcome : Outcome ChunkError (List Chunk)}
    (h : drain feed = (outcome, rest)) :
    ∃ chunks last, Emits feed chunks last ∧ next last = (outcome.map fun _ => none, rest)
      ∧ ∀ found, outcome = .ok found → found = chunks :=
  drainOnto_ends .start h

/-- There is an end to the chunks of every feed. -/
theorem exists_end (feed : σ) :
    ∃ chunks last, Emits feed chunks last ∧ ∀ chunk, (next last).1 ≠ .ok (some chunk) := by
  rcases hdrain : drain feed with ⟨outcome, rest⟩
  obtain ⟨chunks, last, hrun, hend, -⟩ := drain_ends hdrain
  refine ⟨chunks, last, hrun, fun chunk hchunk => ?_⟩
  rw [hend] at hchunk
  cases outcome <;> cases hchunk

/-- A drain that succeeds has seen its chunks emitted one after another, and then the end. -/
theorem drain_emits {feed rest : σ} {chunks : List Chunk} (h : drain feed = (.ok chunks, rest)) :
    ∃ last, Emits feed chunks last ∧ next last = (.ok none, rest) := by
  obtain ⟨found, last, hrun, hend, hsame⟩ := drain_ends h
  rw [hsame chunks rfl]
  exact ⟨last, hrun, hend⟩

end

/-! ## Feeds that come to an end -/

/-- The feed hands out `n` chunks, and then it answers anything but another one. -/
inductive EndsAfter {σ : Type} [ChunkFeed σ] : Nat → σ → Prop where
  | now {s : σ} : (∀ chunk, (next s).1 ≠ .ok (some chunk)) → EndsAfter 0 s
  | later {n : Nat} {chunk : Chunk} {s s' : σ} :
      next s = (.ok (some chunk), s') → EndsAfter n s' → EndsAfter (n + 1) s

open Classical in
/-- How many chunks are to come. -/
noncomputable def toCome {σ : Type} [ChunkFeed σ] (s : σ) : Nat :=
  if h : ∃ n, EndsAfter n s then h.choose else 0

namespace EndsAfter

variable {σ : Type} [ChunkFeed σ] {n : Nat} {s s' : σ}

/-- A chunk brings the end nearer by one. -/
theorem next {chunk : Chunk} (h : EndsAfter n s)
    (hnext : ChunkFeed.next s = (.ok (some chunk), s')) : ∃ m, n = m + 1 ∧ EndsAfter m s' := by
  cases h with
  | now hend => exact absurd (by rw [hnext]) (hend chunk)
  | @later m chunk' _ rest hfirst hlater =>
    rw [hnext] at hfirst
    cases hfirst
    exact ⟨m, rfl, hlater⟩

/-- A feed ends after one number of chunks only. -/
theorem unique {m : Nat} (h : EndsAfter n s) (h' : EndsAfter m s) : n = m := by
  induction h generalizing m with
  | now hend =>
    cases h' with
    | now => rfl
    | @later _ chunk _ _ hnext _ => exact absurd (by rw [hnext]) (hend chunk)
  | later hnext _ ih =>
    obtain ⟨k, rfl, hlater⟩ := h'.next hnext
    rw [ih hlater]

/-- The count of the chunks to come is what the feed ends after. -/
theorem toCome_eq (h : EndsAfter n s) : toCome s = n := by
  have hex : ∃ n, EndsAfter n s := ⟨n, h⟩
  rw [toCome, dif_pos hex]
  exact hex.choose_spec.unique h

/-- A chunk that was handed out is no longer to come. -/
theorem toCome_lt {chunk : Chunk} (h : EndsAfter n s)
    (hnext : ChunkFeed.next s = (.ok (some chunk), s')) : toCome s' < toCome s := by
  obtain ⟨m, rfl, hlater⟩ := h.next hnext
  rw [h.toCome_eq, hlater.toCome_eq]
  exact Nat.lt_succ_self m

/-- Behind some of its chunks a feed still comes to an end. -/
theorem of_emits {feed : σ} {chunks : List Chunk} (h : EndsAfter n feed)
    (hemits : Emits feed chunks s) : ∃ m, n = chunks.length + m ∧ EndsAfter m s := by
  induction hemits with
  | start => exact ⟨n, (Nat.zero_add n).symm, h⟩
  | next _ hnext ih =>
    obtain ⟨m, hm, hbefore⟩ := ih
    obtain ⟨k, rfl, hafter⟩ := hbefore.next hnext
    refine ⟨k, ?_, hafter⟩
    rw [List.length_append, List.length_singleton]
    omega

end EndsAfter

/-- Feeds whose chunks cost something come to an end. Induction on the budget. -/
theorem exists_endsAfter {σ : Type} [FiniteChunkFeed σ] (s : σ) : ∃ n, EndsAfter n s := by
  induction hb : FiniteChunkFeed.budget s using Nat.strongRecOn generalizing s with
  | ind b ih =>
    by_cases hend : ∃ chunk, (ChunkFeed.next s).1 = .ok (some chunk)
    · obtain ⟨chunk, hchunk⟩ := hend
      have hnext : ChunkFeed.next s = (.ok (some chunk), (ChunkFeed.next s).2) :=
        Prod.ext hchunk rfl
      obtain ⟨n, hlater⟩ := ih _ (hb ▸ FiniteChunkFeed.budget_lt hnext) _ rfl
      exact ⟨n + 1, .later hnext hlater⟩
    · exact ⟨0, .now fun chunk hchunk => hend ⟨chunk, hchunk⟩⟩

/-- A drain that succeeds tells after how many. -/
theorem endsAfter_of_drain {σ : Type} [FiniteChunkFeed σ] {feed rest : σ} {chunks : List Chunk}
    (h : drain feed = (.ok chunks, rest)) : EndsAfter chunks.length feed := by
  obtain ⟨n, hfeed⟩ := exists_endsAfter feed
  obtain ⟨last, hemits, hlast⟩ := drain_emits h
  obtain ⟨m, rfl, hbehind⟩ := hfeed.of_emits hemits
  have hzero : m = 0 := hbehind.unique (.now fun chunk => by simp [hlast])
  rw [hzero] at hfeed
  exact hfeed

end ChunkFeed

end MessageFraming
