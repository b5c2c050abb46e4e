import MessageFraming.Proofs.Chunk.Fragmentation
import MessageFraming.Proofs.Chunk.Partition
import MessageFraming.Proofs.Lines.Grammar

/-!
# Lines that fit a chunk

On a source that does not fail a chunker has just one error, and it is about a line: the first one
that was not handed out is longer than a chunk. So where all lines fit, there is none.

* `Chunker.FailureFree`: nothing but bytes and the end of input is to come. Calls keep that
  (`failureFree_of_emits`).
* `Chunker.FailureFree.next_cases`: what a call comes to then. `Chunker.next_error`: its error, and
  the line that it is about.
* `Chunker.Partitioned.split_upToEnd`: that line is a line of the source, since chunks end on line
  boundaries.
* `Chunker.Partitioned.next_ne_error`: so no call fails if all lines of the source fit a chunk.
-/

namespace MessageFraming

namespace Lines

/-- The first line is a line, unless there are no bytes in it and none behind. -/
theorem first_mem_split {bytes : Bytes} (hne : bytes ≠ []) : first bytes ∈ split bytes := by
  rw [split_eq_first_cons hne]
  exact List.mem_cons_self

/-- A first line that is longer than something is one of something. -/
theorem ne_nil_of_lt_length_first {bytes : Bytes} {n : Nat} (h : n < (first bytes).length) :
    bytes ≠ [] := by
  rintro rfl
  exact absurd h (Nat.not_lt_zero n)

end Lines

/-- If a source brings bytes and then its end, these are all its bytes up to its end. -/
theorem Source.Brings.upToEnd_eq {s : Source} {bytes : Bytes} (h : s.Brings bytes .endOfInput) :
    s.upToEnd = bytes := by
  generalize hending : Ending.endOfInput = ending at h
  induction h with
  | exhausted => rfl
  | ended => rfl
  | failed _ => cases hending
  | data _ ih => rw [upToEnd, ih hending]
  | interrupted _ _ ih => exact ih hending

namespace Chunker

/-! ## Chunkers whose source does not fail -/

/-- Nothing is to come but bytes, in whatever pieces, and the end of input. -/
def FailureFree (c : Chunker) : Prop := Alike .endOfInput c c

/-- A chunker over a source that does not fail has only bytes and the end of input before it. -/
theorem failureFree_ofSource {source : Source} {config : Chunk.Config} {c : Chunker} {bytes : Bytes}
    (hsource : source.Brings bytes .endOfInput) (h : ofSource source config = .ok c) :
    c.FailureFree := by
  unfold ofSource at h
  split at h
  · cases h
  · cases h
    exact .differ (.left hsource hsource)

theorem FailureFree.next {c : Chunker} (h : c.FailureFree) : c.next.2.FailureFree :=
  (alike_next h).2

/-- However many chunks were handed out, no failure is to come. -/
theorem failureFree_of_emits {chunker c : Chunker} {chunks : List Chunk} (h : chunker.FailureFree)
    (hrun : ChunkFeed.Emits chunker chunks c) : c.FailureFree := by
  -- on the calls
  induction hrun with
  | start => exact h
  | next _ hnext ih =>
    have hlater := ih.next
    rw [show Chunker.next _ = _ from hnext] at hlater
    exact hlater

/-- What is ahead is what the source brings. -/
theorem FailureFree.brings {c : Chunker} (h : c.FailureFree) {s : Source}
    (hsource : c.source = some s) : s.Brings c.ahead .endOfInput := by
  rcases h.source.gone_or_left with ⟨hnone, -⟩ | ⟨s', t, bytes, hs', -, hbrings, -⟩
  · rw [hsource] at hnone
    cases hnone
  · rw [hsource] at hs'
    cases hs'
    rw [ahead_of_some hsource, hbrings.upToEnd_eq]
    exact hbrings

/-- While there is a source, a call cuts a window of what is ahead. It is a short one, or what is
behind it is without failures too. -/
theorem FailureFree.next_window {c : Chunker} (h : c.FailureFree) {s : Source}
    (hsource : c.source = some s) :
    ∃ rest, c.next = cutWindow (c.ahead.take c.config.chunkSize) rest c
      ∧ (c.ahead.length < c.config.chunkSize
        ∨ c.config.chunkSize ≤ c.ahead.length
          ∧ rest.Brings (c.ahead.drop c.config.chunkSize) .endOfInput) := by
  rcases Nat.lt_or_ge c.ahead.length c.config.chunkSize with hshort | hfull
  · obtain ⟨rest, hnext⟩ := next_short hsource (h.brings hsource) hshort
    rw [List.take_of_length_le (Nat.le_of_lt hshort)]
    exact ⟨rest, hnext, Or.inl hshort⟩
  · obtain ⟨rest, hnext, hrest⟩ := next_full hsource (h.brings hsource) hfull
    exact ⟨rest, hnext, Or.inr ⟨hfull, hrest⟩⟩

/-! ## The one error -/

section

variable {c c' : Chunker} {window later : Bytes} {rest : Source} {e : ChunkError}

/-- A window without an end of a line is emitted, unless the line goes on behind it. -/
theorem closeWindow_cases (hrest : rest.Brings later .endOfInput) (window : Bytes) (c : Chunker) :
    (∃ content d, closeWindow window rest c = emit content d)
      ∨ ∃ b behind, later = b :: behind ∧ b ≠ newline
        ∧ closeWindow window rest c = (.error (.noFrameBoundary c.config.chunkSize), c.abort) := by
  unfold closeWindow
  cases later with
  -- at the end of input the window is closed by it
  | nil =>
    obtain ⟨left, hpull⟩ := hrest.pullByte_nil
    rw [hpull]
    exact Or.inl ⟨_, _, rfl⟩
  | cons b behind =>
    obtain ⟨left, hpull, -⟩ := hrest.pullByte_cons
    rw [hpull]
    -- only a byte that goes on with the line is in the way
    by_cases hb : b = newline
    · exact Or.inl ⟨_, _, if_pos hb⟩
    · exact Or.inr ⟨b, behind, rfl, hb, if_neg hb⟩

/-- A window is emitted up to its last end of a line, or as a whole, unless it is full and all in
one line with what is behind it. -/
theorem cutWindow_cases
    (h : window.length < c.config.chunkSize ∨ rest.Brings later .endOfInput) :
    (∃ content d, cutWindow window rest c = emit content d)
      ∨ newline ∉ window ∧ ∃ b behind, later = b :: behind ∧ b ≠ newline
        ∧ cutWindow window rest c = (.error (.noFrameBoundary c.config.chunkSize), c.abort) := by
  unfold cutWindow
  split
  · rename_i hhead
    split
    · exact Or.inl ⟨_, _, rfl⟩
    · rename_i hfull
      rcases closeWindow_cases (h.resolve_left hfull) window c with hemit | hopen
      · exact Or.inl hemit
      · refine Or.inr ⟨?_, hopen⟩
        -- with nothing in front of the cut, the window is what stands behind it
        have hcut := Bytes.cutAfterLast_append newline window
        rw [hhead, List.nil_append] at hcut
        rw [← hcut]
        exact Bytes.delimiter_not_mem_cutAfterLast newline window
  · exact Or.inl ⟨_, _, rfl⟩

/-- **What a call comes to without a failure**: it emits, or meets a window that is all in one line
with the byte behind it. -/
theorem FailureFree.next_cases (hfree : c.FailureFree) :
    (∃ content d, c.next = emit content d)
      ∨ c.config.chunkSize ≤ c.ahead.length ∧ newline ∉ c.ahead.take c.config.chunkSize
        ∧ ∃ b behind, c.ahead.drop c.config.chunkSize = b :: behind ∧ b ≠ newline
          ∧ c.next = (.error (.noFrameBoundary c.config.chunkSize), c.abort) := by
  cases hsource : c.source with
  | none => exact Or.inl ⟨_, _, next_residual hsource⟩
  | some s =>
    obtain ⟨rest, hnext, hwhole⟩ := hfree.next_window hsource
    rw [hnext]
    rcases hwhole with hshort | ⟨hfull, hrest⟩
    · have hwindow : (c.ahead.take c.config.chunkSize).length < c.config.chunkSize := by
        rw [List.length_take]
        omega
      have hshort' : _ ∨ rest.Brings [] .endOfInput := Or.inl hwindow
      rcases cutWindow_cases hshort' with hemit | ⟨-, b, behind, hnil, -⟩
      · exact Or.inl hemit
      · cases hnil
    · rcases cutWindow_cases (Or.inr hrest) with hemit | ⟨hwindow, hopen⟩
      · exact Or.inl hemit
      · exact Or.inr ⟨hfull, hwindow, hopen⟩

/-- **The one error of a chunker is about a line**: the first one that was not handed out is longer
than a chunk. -/
theorem next_error (hc : c.Tidy) (hfree : c.FailureFree) (h : c.next = (.error e, c')) :
    e = .noFrameBoundary c.config.chunkSize
      ∧ c.config.chunkSize < (Lines.first (c.carry ++ c.ahead)).length := by
  rcases hfree.next_cases with ⟨content, d, hemit⟩ | ⟨hfull, hwindow, b, behind, hlater, hb, hnext⟩
  · exact absurd (hemit.symm.trans h) emit_ne_error
  · cases hnext.symm.trans h
    refine ⟨rfl, ?_⟩
    -- carry, window and the byte behind it are all in one line
    have hopen : newline ∉ c.carry ++ c.ahead.take c.config.chunkSize ++ [b] := by
      simp [hc.carry_open, hwindow, Ne.symm hb]
    have hbytes : c.carry ++ c.ahead
        = c.carry ++ c.ahead.take c.config.chunkSize ++ [b] ++ behind := by
      rw [List.append_assoc, List.append_assoc, List.singleton_append, ← hlater,
        List.take_append_drop]
    rw [hbytes, Lines.first_append_of_not_mem hopen, List.length_append, List.length_append,
      List.length_append, List.length_singleton, List.length_take_of_le hfull]
    omega

end

/-! ## Lines of the source -/

/-- Chunks end on line boundaries, so their lines taken together are the lines of their bytes. -/
theorem split_flatMap {chunks : List Chunk} (h : ∀ chunk ∈ chunks, Lines.Aligned chunk.bytes)
    (behind : Bytes) :
    Lines.split (chunks.flatMap (·.bytes) ++ behind)
      = chunks.flatMap (fun chunk => Lines.split chunk.bytes) ++ Lines.split behind := by
  induction chunks with
  | nil => rfl
  | cons chunk chunks ih =>
    obtain ⟨hchunk, hchunks⟩ := List.forall_mem_cons.mp h
    rw [List.flatMap_cons, List.flatMap_cons, List.append_assoc, Lines.split_append hchunk,
      ih hchunks, List.append_assoc]

section

variable {source : Source} {config : Chunk.Config} {chunks : List Chunk} {c : Chunker}

/-- **The lines of the source** are those of the chunks so far, and then those that were not handed
out. -/
theorem Partitioned.split_upToEnd (h : Partitioned source config chunks c) :
    Lines.split source.upToEnd
      = chunks.flatMap (fun chunk => Lines.split chunk.bytes)
        ++ Lines.split (c.carry ++ c.ahead) := by
  rw [h.bytes]
  rcases h.boundary with hall | ⟨hsource, hcarry, hfront⟩
  · exact split_flatMap (fun chunk hmem => Or.inr (hall chunk hmem)) _
  · -- nothing stands behind the last chunk, so it needs no boundary
    rw [hcarry, ahead_of_none hsource, List.append_nil, List.append_nil, Lines.split_nil,
      List.append_nil]
    rcases List.eq_nil_or_concat chunks with rfl | ⟨front, last, rfl⟩
    · rfl
    · rw [List.concat_eq_append, List.dropLast_concat] at hfront
      rw [List.concat_eq_append, List.flatMap_append, List.flatMap_append, List.flatMap_singleton,
        List.flatMap_singleton]
      exact split_flatMap (fun chunk hmem => Or.inr (hfront chunk hmem)) _

/-- A line of a chunk is a line of the source. -/
theorem Partitioned.mem_split (h : Partitioned source config chunks c) {chunk : Chunk}
    (hmem : chunk ∈ chunks) {line : Bytes} (hline : line ∈ Lines.split chunk.bytes) :
    line ∈ Lines.split source.upToEnd := by
  rw [h.split_upToEnd]
  exact List.mem_append_left _ (List.mem_flatMap.mpr ⟨chunk, hmem, hline⟩)

/-- **Where all lines fit a chunk, no call fails.** -/
theorem Partitioned.next_ne_error (h : Partitioned source config chunks c) (hfree : c.FailureFree)
    (hfits : ∀ line ∈ Lines.split source.upToEnd, line.length ≤ config.chunkSize)
    {e : ChunkError} {c' : Chunker} : c.next ≠ (.error e, c') := by
  intro hnext
  obtain ⟨-, hlong⟩ := next_error h.tidy hfree hnext
  -- the line that the error is about is a line of the source, and all of these fit
  have hne := Lines.ne_nil_of_lt_length_first hlong
  have hline : Lines.first (c.carry ++ c.ahead) ∈ Lines.split source.upToEnd := by
    rw [h.split_upToEnd]
    exact List.mem_append_right _ (Lines.first_mem_split hne)
  have hle := hfits _ hline
  rw [h.config_eq] at hlong
  exact absurd hlong (Nat.not_lt.mpr hle)

end

end Chunker

end MessageFraming
