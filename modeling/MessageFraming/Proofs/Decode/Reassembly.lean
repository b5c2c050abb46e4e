import MessageFraming.Decode.Sequential
import MessageFraming.Proofs.Decode.Totals

/-!
# Reassembly in any order

Whatever order decoded chunks come in, the collector makes the same stream of them.

* `DecodedStream.ofChunks`: the stream that some chunks make up.
* `Collector.Holds`: the invariant. The chunks that came are those whose turn has come, in order,
  and the pending ones, which stand behind a gap.
* `Collector.Holds.push_ok`, `Collector.Holds.push_error`: a push keeps the invariant, or refuses an
  index that has come before.
* `Collector.Holds.finish_ok_iff`: a collector gives a stream exactly when the indices that came are
  `0`, `1`, `2` and so on without a gap, and then it is the stream in the order of the indices.
-/

namespace MessageFraming

namespace DecodedStream

/-- The stream that these chunks make up, in this order. -/
def ofChunks (chunks : List DecodedChunk) : DecodedStream :=
  ⟨chunks.flatMap (·.frames), (chunks.map (·.counters)).sum⟩

@[simp] theorem ofChunks_nil : ofChunks [] = empty := rfl

theorem ofChunks_concat (chunks : List DecodedChunk) (chunk : DecodedChunk) :
    ofChunks (chunks ++ [chunk]) = (ofChunks chunks).append chunk := by
  unfold ofChunks append
  rw [List.flatMap_append, List.flatMap_singleton, List.map_append, List.sum_append,
    List.map_singleton, List.sum_singleton]

end DecodedStream

/-! ## Chunks in the order of their indices -/

/-- Their indices are `0`, `1`, `2` and so on. -/
def InOrder (chunks : List DecodedChunk) : Prop :=
  chunks.map (·.index) = List.range chunks.length

/-- The chunk that comes next keeps the order. -/
theorem InOrder.concat {chunks : List DecodedChunk} {chunk : DecodedChunk} (h : InOrder chunks)
    (hindex : chunk.index = chunks.length) : InOrder (chunks ++ [chunk]) := by
  unfold InOrder
  rw [List.map_append, h, List.map_singleton, hindex, List.length_append, List.length_singleton,
    List.range_succ]

/-- Chunks in order have growing indices. -/
theorem InOrder.pairwise {chunks : List DecodedChunk} (h : InOrder chunks) :
    chunks.Pairwise fun a b => a.index < b.index := by
  have hrange := List.pairwise_lt_range (n := chunks.length)
  rw [← h, List.pairwise_map] at hrange
  exact hrange

/-- There is one order only, since the index says where a chunk stands. -/
theorem InOrder.eq_of_perm {a b : List DecodedChunk} (ha : InOrder a) (hb : InOrder b)
    (h : a.Perm b) : a = b := by
  -- both are sorted by index, and no two indices are equal
  apply List.Perm.eq_of_pairwise _ ha.pairwise hb.pairwise h
  intro x y _ _ hxy hyx
  omega

namespace Collector

/-! ## What a collector holds -/

/-- The stream up to the first gap. -/
def stream (c : Collector) : DecodedStream := ⟨c.frames, c.counters⟩

/-- Of the chunks that came, `flushed` are in the stream and the others are pending. -/
structure Flushed (came flushed : List DecodedChunk) (c : Collector) : Prop where
  split : came.Perm (flushed ++ c.pending)
  inOrder : InOrder flushed
  next_eq : c.next = flushed.length
  stream_eq : c.stream = .ofChunks flushed
  distinct : (c.pending.map (·.index)).Nodup
  notBehind : ∀ chunk ∈ c.pending, c.next ≤ chunk.index

/-- Between two pushes: besides, the chunk whose turn it is has not come. -/
structure Holds (came : List DecodedChunk) (c : Collector) : Prop where
  flushed : ∃ flushed, Flushed came flushed c
  gap : ∀ chunk ∈ c.pending, c.next < chunk.index

theorem holds_empty : Holds [] empty where
  flushed := ⟨[], .rfl, rfl, rfl, rfl, List.nodup_nil, fun _ hmem => absurd hmem List.not_mem_nil⟩
  gap _ hmem := absurd hmem List.not_mem_nil

/-- Which indices have come can be told from the next one and the pending ones. -/
theorem Flushed.came_iff {came flushed : List DecodedChunk} {c : Collector}
    (h : Flushed came flushed c) (i : Nat) :
    (∃ chunk ∈ came, chunk.index = i) ↔ i < c.next ∨ c.pending.any (·.index == i) := by
  have hmem : i ∈ came.map (·.index) ↔ i ∈ List.range c.next ++ c.pending.map (·.index) := by
    rw [(h.split.map _).mem_iff, List.map_append, h.inOrder, h.next_eq]
  rw [List.mem_map, List.mem_append, List.mem_range, List.mem_map] at hmem
  simpa only [List.any_eq_true, beq_iff_eq] using hmem

/-! ## Flushing -/

/-- A found element can be moved to the front. -/
theorem perm_cons_eraseP_of_find? {α : Type} {p : α → Bool} {l : List α} {a : α}
    (h : l.find? p = some a) : l.Perm (a :: l.eraseP p) := by
  obtain ⟨ha, front, back, rfl, hfront⟩ := List.find?_eq_some_iff_append.mp h
  have hnot : ∀ b ∈ front, ¬ p b := by simpa using hfront
  rw [List.eraseP_append_right _ hnot, List.eraseP_cons_of_pos ha]
  exact List.perm_middle

/-- A pending chunk whose turn it is moves from the pending ones to the stream. -/
theorem Flushed.accept {came flushed : List DecodedChunk} {c : Collector} {chunk : DecodedChunk}
    (h : Flushed came flushed c) (hfind : c.pending.find? (·.index == c.next) = some chunk) :
    Flushed came (flushed ++ [chunk])
      { c.accept chunk with pending := c.pending.eraseP (·.index == c.next) } := by
  have hmove := perm_cons_eraseP_of_find? hfind
  have hindex : chunk.index = c.next := by simpa using List.find?_some hfind
  have hdistinct := (hmove.map (·.index)).nodup_iff.mp h.distinct
  rw [List.map_cons, List.nodup_cons] at hdistinct
  exact
    { split := by
        rw [List.append_assoc, List.singleton_append]
        exact h.split.trans (hmove.append_left flushed)
      inOrder := h.inOrder.concat (hindex.trans h.next_eq)
      next_eq := by
        rw [List.length_append, List.length_singleton, ← h.next_eq]
        rfl
      stream_eq := by
        rw [DecodedStream.ofChunks_concat, ← h.stream_eq]
        rfl
      distinct := hdistinct.2
      notBehind := by
        intro other hmem
        -- it was not behind before, and its index is not the one that has just come
        have hle := h.notBehind other (List.mem_of_mem_eraseP hmem)
        have hne : other.index ≠ chunk.index := fun heq =>
          hdistinct.1 (List.mem_map.mpr ⟨other, hmem, heq⟩)
        show c.next + 1 ≤ other.index
        omega }

/-- Flushing stops at a gap. Induction on the flushed chunks. -/
theorem Flushed.flushReady {came flushed : List DecodedChunk} {c : Collector}
    (h : Flushed came flushed c) : Holds came c.flushReady := by
  fun_induction Collector.flushReady c generalizing flushed with
  | case1 c hfind =>
    refine ⟨⟨flushed, h⟩, ?_⟩
    intro chunk hmem
    have hle := h.notBehind chunk hmem
    have hne : chunk.index ≠ c.next := by simpa using List.find?_eq_none.mp hfind chunk hmem
    omega
  | case2 c chunk hfind ih => exact ih (h.accept hfind)

/-- With a gap in front of the pending chunks there is nothing to flush. -/
theorem Holds.flushReady_eq {came : List DecodedChunk} {c : Collector} (h : Holds came c) :
    c.flushReady = c := by
  rw [Collector.flushReady]
  split
  · rfl
  · rename_i chunk hfind
    have hlt := h.gap chunk (List.mem_of_find?_eq_some hfind)
    have hindex : chunk.index = c.next := by simpa using List.find?_some hfind
    omega

/-! ## Pushing -/

/-- A chunk that is new becomes a pending one, whatever its index. -/
theorem Flushed.insert {came flushed : List DecodedChunk} {c : Collector} {chunk : DecodedChunk}
    (h : Flushed came flushed c)
    (hnew : ¬ (chunk.index < c.next ∨ c.pending.any (·.index == chunk.index))) :
    Flushed (chunk :: came) flushed { c with pending := chunk :: c.pending } where
  split := (h.split.cons chunk).trans List.perm_middle.symm
  inOrder := h.inOrder
  next_eq := h.next_eq
  stream_eq := h.stream_eq
  distinct := by
    -- the index is new among the pending ones, by the check
    have hnot : chunk.index ∉ c.pending.map (·.index) := by
      intro hmem
      apply hnew
      rw [List.any_eq_true]
      obtain ⟨other, hother, heq⟩ := List.mem_map.mp hmem
      exact Or.inr ⟨other, hother, beq_iff_eq.mpr heq⟩
    rw [List.map_cons]
    exact List.nodup_cons.mpr ⟨hnot, h.distinct⟩
  notBehind := by
    intro other hmem
    -- and not behind the stream, by the other half of it
    rcases List.mem_cons.mp hmem with rfl | hmem
    · show c.next ≤ other.index
      omega
    · exact h.notBehind other hmem

/-- **A pushed chunk has come.** -/
theorem Holds.push_ok {came : List DecodedChunk} {c c' : Collector} {chunk : DecodedChunk}
    (h : Holds came c) (hpush : c.push chunk = .ok c') : Holds (chunk :: came) c' := by
  obtain ⟨flushed, hflushed⟩ := h.flushed
  unfold push at hpush
  split at hpush
  · cases hpush
  · rename_i hnew
    cases hpush
    exact (hflushed.insert hnew).flushReady

/-- **A push is refused for one reason only**: a chunk with this index has come before. -/
theorem Holds.push_error {came : List DecodedChunk} {c : Collector} {chunk : DecodedChunk}
    {e : StreamError} (h : Holds came c) (hpush : c.push chunk = .error e) :
    e = .duplicateChunk chunk.index ∧ ∃ earlier ∈ came, earlier.index = chunk.index := by
  obtain ⟨flushed, hflushed⟩ := h.flushed
  unfold push at hpush
  split at hpush
  · rename_i hseen
    cases hpush
    exact ⟨rfl, (hflushed.came_iff chunk.index).mpr hseen⟩
  · cases hpush

/-! ## Finishing -/

/-- A collector is asked to finish, and answers by whether a chunk is still pending. -/
theorem Holds.finish_eq {came : List DecodedChunk} {c : Collector} (h : Holds came c) :
    c.finish = if c.pending.isEmpty then .ok c.stream else .error (.missingChunk c.next) := by
  unfold finish
  rw [h.flushReady_eq]
  rfl

/-- The next index has not come: it would be in the stream or pending. -/
theorem Holds.next_not_mem {came : List DecodedChunk} {c : Collector} (h : Holds came c) :
    ¬ ∃ chunk ∈ came, chunk.index = c.next := by
  obtain ⟨flushed, hflushed⟩ := h.flushed
  rw [hflushed.came_iff]
  rintro (hlt | hany)
  · exact Nat.lt_irrefl _ hlt
  · obtain ⟨chunk, hmem, hindex⟩ := List.any_eq_true.mp hany
    have := h.gap chunk hmem
    rw [beq_iff_eq] at hindex
    omega

/-- Without a gap among the indices that came, nothing is pending. -/
theorem Holds.pending_eq_nil {came : List DecodedChunk} {c : Collector} {n : Nat}
    (h : Holds came c) (hindices : (came.map (·.index)).Perm (List.range n)) : c.pending = [] := by
  obtain ⟨flushed, hflushed⟩ := h.flushed
  have hcame : ∀ i, (∃ chunk ∈ came, chunk.index = i) ↔ i < n := by
    intro i
    rw [← List.mem_range, ← hindices.mem_iff, List.mem_map]
  -- the next index has not come, so all that came are behind it, and no pending one is
  have hnext : n ≤ c.next :=
    Nat.le_of_not_lt fun hlt => h.next_not_mem ((hcame c.next).mpr hlt)
  apply List.eq_nil_iff_forall_not_mem.mpr
  intro chunk hmem
  have hlt := h.gap chunk hmem
  have hin := (hcame chunk.index).mp
    ⟨chunk, hflushed.split.mem_iff.mpr (List.mem_append_right flushed hmem), rfl⟩
  omega

/-- **When a collector gives a stream, and which.** -/
theorem Holds.finish_ok_iff {came : List DecodedChunk} {c : Collector} (h : Holds came c)
    (stream : DecodedStream) :
    c.finish = .ok stream
      ↔ ∃ inOrder, came.Perm inOrder ∧ InOrder inOrder ∧ stream = .ofChunks inOrder := by
  obtain ⟨flushed, hflushed⟩ := h.flushed
  rw [h.finish_eq]
  constructor
  · intro hfinish
    split at hfinish
    · rename_i hempty
      cases hfinish
      have hsplit := hflushed.split
      rw [List.isEmpty_iff.mp hempty, List.append_nil] at hsplit
      exact ⟨flushed, hsplit, hflushed.inOrder, hflushed.stream_eq⟩
    · cases hfinish
  · rintro ⟨inOrder, hperm, horder, rfl⟩
    -- nothing is pending, so all that came is flushed, and there is only one order to flush it in
    have hindices := hperm.map (·.index)
    rw [horder] at hindices
    have hpending := h.pending_eq_nil hindices
    have hsplit := hflushed.split
    rw [hpending, List.append_nil] at hsplit
    have hsame : inOrder = flushed :=
      horder.eq_of_perm hflushed.inOrder (hperm.symm.trans hsplit)
    rw [hpending, if_pos List.isEmpty_nil, hflushed.stream_eq, hsame]

/-- The only complaint at the end is about the first chunk that did not come. -/
theorem Holds.finish_error {came : List DecodedChunk} {c : Collector} {e : StreamError}
    (h : Holds came c) (hfinish : c.finish = .error e) : e = .missingChunk c.next := by
  rw [h.finish_eq] at hfinish
  split at hfinish
  · cases hfinish
  · cases hfinish
    rfl

end Collector

end MessageFraming
