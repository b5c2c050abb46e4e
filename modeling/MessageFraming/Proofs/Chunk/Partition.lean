import MessageFraming.Chunk.Chunker
import MessageFraming.Proofs.Chunk.Emission
import MessageFraming.Proofs.Source.Delivery

/-!
# Chunks partition their source

A chunker moves bytes between the window it has just read, the carry and the chunk it hands out,
and it has six ways to do so. This module shows that no byte is lost, doubled or moved on any of
them.

* `Chunker.Tidy`: the state between two calls. The carry is the beginning of a line, shorter than a
  window.
* `Chunker.Prepared`: what a call has made of the window before it hands out its content. All six
  ways are gone through here once (`next_prepared`).
* `Chunker.Cut`: what a call takes off the stream when it hands out a chunk (`next_cut`). A call
  that ends the stream leaves nothing behind (`next_end`).
* `Chunker.Partitioned`: what the chunks so far, the carry and the bytes ahead have to do with the
  source. Every run keeps it, by induction on its calls (`partitioned_of_emits`).
-/

namespace MessageFraming

namespace Chunker

/-- The bytes that the source has still to deliver. -/
def ahead (c : Chunker) : Bytes :=
  match c.source with
  | none => []
  | some source => source.upToEnd

/-- Nothing is ahead once the source is gone. -/
theorem ahead_of_none {c : Chunker} (h : c.source = none) : c.ahead = [] := by
  unfold ahead
  rw [h]

/-- What is ahead are the bytes of the source up to its end. -/
theorem ahead_of_some {c : Chunker} {source : Source} (h : c.source = some source) :
    c.ahead = source.upToEnd := by
  unfold ahead
  rw [h]

/-- Between two calls. -/
structure Tidy (c : Chunker) : Prop where
  carry_open : newline ∉ c.carry
  carry_short : c.carry.length < c.config.chunkSize

/-- A call on `c` is about to hand out `content` and has got the chunker into state `d`. -/
structure Prepared (c : Chunker) (content : Bytes) (d : Chunker) : Prop where
  config : d.config = c.config
  index : d.nextIndex = c.nextIndex
  bytes : c.carry ++ c.ahead = content ++ (d.carry ++ d.ahead)
  length_le : content.length ≤ 2 * c.config.chunkSize
  tidy : d.Tidy
  boundary : content.getLast? = some newline ∨ d.source = none ∧ d.carry = []

/-! ## One call -/

/-- Nothing is left of the source: what was carried over is handed out. -/
theorem prepared_residual {c : Chunker} (hc : c.Tidy) (hsource : c.source = none) :
    c.Prepared c.carry { c with carry := [] } where
  config := rfl
  index := rfl
  bytes := by simp [ahead, hsource]
  length_le := by
    have := hc.carry_short
    omega
  tidy := ⟨List.not_mem_nil, c.valid.chunkSize_pos⟩
  boundary := Or.inr ⟨hsource, rfl⟩

/-- A full window without a boundary: its line ends right behind it. -/
theorem prepared_closeWindow {c c' : Chunker} {window : Bytes} {rest : Source}
    {answer : Option Chunk} (hc : c.Tidy) (hfull : window.length = c.config.chunkSize)
    (hahead : c.ahead = window ++ rest.upToEnd)
    (h : closeWindow window rest c = (.ok answer, c')) :
    ∃ content d, emit content d = (.ok answer, c') ∧ c.Prepared content d := by
  have hcarry := hc.carry_short
  have hempty : newline ∉ ([] : Bytes) := List.not_mem_nil
  unfold closeWindow at h
  split at h
  · rename_i rest' hbyte
    -- the source is at its end: everything goes out, and nothing is left
    rcases Source.pullByte_ok hbyte with ⟨-, hend⟩ | ⟨b, hb, -⟩
    · refine ⟨_, _, h, rfl, rfl, ?_, ?_, ⟨hempty, c.valid.chunkSize_pos⟩, Or.inr ⟨rfl, rfl⟩⟩
      · rw [hahead, hend]
        simp [ahead]
      · rw [List.length_append]
        omega
    · cases hb
  · rename_i b rest' hbyte
    split at h
    · -- a line feed comes, and is the last byte of the content
      rename_i hb
      rcases Source.pullByte_ok hbyte with ⟨hnone, -⟩ | ⟨b', hb', hrest⟩
      · cases hnone
      · cases hb'
        refine ⟨_, _, h, rfl, rfl, ?_, ?_, ⟨hempty, c.valid.chunkSize_pos⟩, Or.inl ?_⟩
        · rw [hahead, hrest, hb]
          simp [ahead]
        · rw [List.length_append, List.length_append, List.length_singleton]
          omega
        · rw [← List.append_assoc, List.getLast?_concat]
    · cases h
  · cases h
  · cases h

/-- What a window becomes: all of it joins the carry when the source has ended, and otherwise the
part up to its last `\n` does, or, without one, `closeWindow` decides. -/
theorem prepared_cutWindow {c c' : Chunker} {window : Bytes} {rest : Source}
    {answer : Option Chunk} (hc : c.Tidy)
    (hwindow : window.length = c.config.chunkSize ∧ c.ahead = window ++ rest.upToEnd
      ∨ window.length < c.config.chunkSize ∧ c.ahead = window)
    (h : cutWindow window rest c = (.ok answer, c')) :
    ∃ content d, emit content d = (.ok answer, c') ∧ c.Prepared content d := by
  have hcarry := hc.carry_short
  have hcut := Bytes.cutAfterLast_append newline window
  have hlen := congrArg List.length hcut
  rw [List.length_append] at hlen
  unfold cutWindow at h
  split at h
  · split at h
    · rename_i hshort
      rcases hwindow with ⟨hfull, -⟩ | ⟨-, hahead⟩
      · omega
      · refine ⟨_, _, h, rfl, rfl, ?_, ?_, ⟨List.not_mem_nil, c.valid.chunkSize_pos⟩,
          Or.inr ⟨rfl, rfl⟩⟩
        · rw [hahead]
          simp [ahead]
        · rw [List.length_append]
          omega
    · rename_i hnot
      rcases hwindow with ⟨hfull, hahead⟩ | ⟨hshort, -⟩
      · exact prepared_closeWindow hc hfull hahead h
      · omega
  · rename_i hhead
    have hpos := List.length_pos_iff.mpr hhead
    refine ⟨_, _, h, rfl, rfl, ?_, ?_, ⟨Bytes.delimiter_not_mem_cutAfterLast newline window, ?_⟩,
      Or.inl ?_⟩
    · -- the head leaves, and the tail waits in front of what is ahead now
      rw [List.append_assoc c.carry,
        ← List.append_assoc (Bytes.cutAfterLast newline window).1, hcut]
      rcases hwindow with ⟨hfull, hahead⟩ | ⟨hshort, hahead⟩
      · have hsource : c.sourceAfter window rest = some rest := if_neg (by omega)
        rw [hahead]
        simp only [ahead, hsource]
      · have hsource : c.sourceAfter window rest = none := if_pos hshort
        rw [hahead]
        simp only [ahead, hsource, List.append_nil]
    · rw [List.length_append]
      omega
    · show (Bytes.cutAfterLast newline window).2.length < c.config.chunkSize
      omega
    · rw [List.getLast?_append, Bytes.cutAfterLast_getLast? hhead]
      rfl

/-- Every call prepares some content and emits it. -/
theorem next_prepared {c c' : Chunker} {answer : Option Chunk} (hc : c.Tidy)
    (h : c.next = (.ok answer, c')) :
    ∃ content d, emit content d = (.ok answer, c') ∧ c.Prepared content d := by
  unfold next at h
  split at h
  · rename_i hsource
    exact ⟨c.carry, _, h, prepared_residual hc hsource⟩
  · rename_i source hsource
    simp only at h
    split at h
    · rename_i hgather
      -- what was gathered and what is left of the source were ahead
      refine prepared_cutWindow hc ?_ h
      rw [ahead_of_some hsource]
      exact Source.gather_ok hgather
    · cases h
    · cases h

/-! ## Chunks and the end -/

/-- What a call that hands out a chunk takes off the stream. -/
structure Cut (c : Chunker) (chunk : Chunk) (c' : Chunker) : Prop where
  config : c'.config = c.config
  index : chunk.index = c.nextIndex
  nextIndex : c'.nextIndex = c.nextIndex + 1
  limit : chunk.maxLineLength = c.config.maxLineLength
  nonempty : chunk.bytes ≠ []
  size_le : chunk.size ≤ 2 * c.config.chunkSize
  bytes : c.carry ++ c.ahead = chunk.bytes ++ (c'.carry ++ c'.ahead)
  tidy : c'.Tidy
  boundary : chunk.bytes.getLast? = some newline ∨ c'.source = none ∧ c'.carry = []

/-- A chunk comes off the front of the stream, and ends on a boundary. -/
theorem next_cut {c c' : Chunker} {chunk : Chunk} (hc : c.Tidy)
    (h : c.next = (.ok (some chunk), c')) : c.Cut chunk c' := by
  obtain ⟨content, d, hemit, hprep⟩ := next_prepared hc h
  obtain ⟨hne, rfl, rfl⟩ := emit_some hemit
  exact
    { config := hprep.config
      index := hprep.index
      nextIndex := by rw [← hprep.index]
      limit := by rw [← hprep.config]
      nonempty := hne
      size_le := hprep.length_le
      bytes := hprep.bytes
      tidy := ⟨hprep.tidy.carry_open, hprep.tidy.carry_short⟩
      boundary := hprep.boundary }

/-- At its end a chunker has nothing in the carry and nothing ahead. -/
theorem next_end {c c' : Chunker} (hc : c.Tidy) (h : c.next = (.ok none, c')) :
    c.carry = [] ∧ c.ahead = [] := by
  obtain ⟨content, d, hemit, hprep⟩ := next_prepared hc h
  obtain ⟨rfl, rfl⟩ := emit_none hemit
  -- without content there is no boundary at its end, so the source has ended
  rcases hprep.boundary with hlast | ⟨hsource, hcarry⟩
  · cases hlast
  · have hbytes := hprep.bytes
    rw [hcarry, ahead_of_none hsource] at hbytes
    exact List.append_eq_nil_iff.mp hbytes

/-! ## Runs -/

/-- How the chunks so far, the carry and the bytes ahead make up the source. -/
structure Partitioned (source : Source) (config : Chunk.Config) (chunks : List Chunk)
    (c : Chunker) : Prop where
  config_eq : c.config = config
  tidy : c.Tidy
  bytes : source.upToEnd = chunks.flatMap (·.bytes) ++ (c.carry ++ c.ahead)
  nextIndex : c.nextIndex = chunks.length
  indices : chunks.map (·.index) = List.range chunks.length
  limits : ∀ chunk ∈ chunks, chunk.maxLineLength = config.maxLineLength
  nonempty : ∀ chunk ∈ chunks, chunk.bytes ≠ []
  size_le : ∀ chunk ∈ chunks, chunk.size ≤ 2 * config.chunkSize
  boundary : (∀ chunk ∈ chunks, chunk.bytes.getLast? = some newline)
    ∨ c.source = none ∧ c.carry = []
      ∧ ∀ chunk ∈ chunks.dropLast, chunk.bytes.getLast? = some newline

/-- At the start nothing was handed out, and everything is ahead. -/
theorem partitioned_ofSource {source : Source} {config : Chunk.Config} {c : Chunker}
    (h : ofSource source config = .ok c) : Partitioned source config [] c := by
  unfold ofSource at h
  split at h
  · cases h
  · rename_i hvalid
    cases h
    exact
      { config_eq := rfl
        tidy := ⟨List.not_mem_nil, (config.problem?_eq_none_iff.mp hvalid).chunkSize_pos⟩
        bytes := rfl
        nextIndex := rfl
        indices := rfl
        limits := fun _ hmem => absurd hmem List.not_mem_nil
        nonempty := fun _ hmem => absurd hmem List.not_mem_nil
        size_le := fun _ hmem => absurd hmem List.not_mem_nil
        boundary := Or.inl fun _ hmem => absurd hmem List.not_mem_nil }

/-- What held of the chunks so far, and holds of the new one, holds of all. -/
theorem forall_mem_concat {P : Chunk → Prop} {chunks : List Chunk} {chunk : Chunk}
    (hall : ∀ c ∈ chunks, P c) (hlast : P chunk) : ∀ c ∈ chunks ++ [chunk], P c := by
  intro c hmem
  rcases List.mem_append.mp hmem with hmem | hmem
  · exact hall c hmem
  · rw [List.mem_singleton.mp hmem]
    exact hlast

/-- A further chunk takes its bytes from what was carried over and what was ahead. -/
theorem Partitioned.next {source : Source} {config : Chunk.Config} {chunks : List Chunk}
    {chunk : Chunk} {c c' : Chunker} (h : Partitioned source config chunks c)
    (hnext : c.next = (.ok (some chunk), c')) :
    Partitioned source config (chunks ++ [chunk]) c' := by
  have hcut := next_cut h.tidy hnext
  -- had the last chunk been an unterminated one, nothing would be left for this one
  have haligned : ∀ chunk ∈ chunks, chunk.bytes.getLast? = some newline := by
    rcases h.boundary with hall | ⟨hsource, hcarry, -⟩
    · exact hall
    · have hbytes := hcut.bytes
      rw [hcarry, ahead_of_none hsource] at hbytes
      exact absurd (List.append_eq_nil_iff.mp hbytes.symm).1 hcut.nonempty
  exact
    { config_eq := hcut.config.trans h.config_eq
      tidy := hcut.tidy
      bytes := by
        rw [h.bytes, hcut.bytes, List.flatMap_append, List.flatMap_singleton, List.append_assoc]
      nextIndex := by rw [hcut.nextIndex, h.nextIndex, List.length_append, List.length_singleton]
      indices := by
        rw [List.map_append, h.indices, List.map_singleton, hcut.index, h.nextIndex,
          List.length_append, List.length_singleton, List.range_succ]
      limits := forall_mem_concat h.limits (by rw [hcut.limit, h.config_eq])
      nonempty := forall_mem_concat h.nonempty hcut.nonempty
      size_le := forall_mem_concat h.size_le (by rw [← h.config_eq]; exact hcut.size_le)
      boundary := by
        rcases hcut.boundary with hlast | ⟨hsource, hcarry⟩
        · exact Or.inl (forall_mem_concat haligned hlast)
        · refine Or.inr ⟨hsource, hcarry, ?_⟩
          rw [List.dropLast_concat]
          exact haligned }

/-- So every row of chunks partitions the source. -/
theorem partitioned_of_emits {source : Source} {config : Chunk.Config} {chunker c : Chunker}
    {chunks : List Chunk} (h : ofSource source config = .ok chunker)
    (hrun : ChunkFeed.Emits chunker chunks c) : Partitioned source config chunks c := by
  -- on the calls, each of which cuts one chunk off the stream
  induction hrun with
  | start => exact partitioned_ofSource h
  | next _ hnext ih => exact ih.next hnext

/-- A drained chunker has handed out everything up to the end, cut on line boundaries. -/
theorem Partitioned.drained {source : Source} {config : Chunk.Config} {chunks : List Chunk}
    {c c' : Chunker} (h : Partitioned source config chunks c) (hend : c.next = (.ok none, c')) :
    chunks.flatMap (·.bytes) = source.upToEnd
      ∧ ∀ chunk ∈ chunks.dropLast, chunk.bytes.getLast? = some newline := by
  obtain ⟨hcarry, hahead⟩ := next_end h.tidy hend
  refine ⟨by rw [h.bytes, hcarry, hahead, List.append_nil, List.append_nil], ?_⟩
  rcases h.boundary with hall | ⟨-, -, hfront⟩
  · exact fun chunk hmem => hall chunk (List.dropLast_subset chunks hmem)
  · exact hfront

/-- **Chunks partition their source on line boundaries.** Between any two calls the chunks so far
and the carry are what has been taken from the source, all but the bytes ahead, and the carry is an
open line shorter than a window. Where draining succeeds, the chunks make up the source to its first
end: none is empty or longer than two windows, they are numbered from zero, and each but the last
ends with `\n`. -/
theorem chunks_partition_source {source : Source} {config : Chunk.Config} {chunker : Chunker}
    (h : ofSource source config = .ok chunker) :
    (∀ chunks c, ChunkFeed.Emits chunker chunks c →
      source.upToEnd = chunks.flatMap (·.bytes) ++ c.carry ++ c.ahead
        ∧ newline ∉ c.carry ∧ c.carry.length < config.chunkSize)
    ∧ ∀ chunks c, ChunkFeed.drain chunker = (.ok chunks, c) →
      chunks.flatMap (·.bytes) = source.upToEnd
        ∧ (∀ chunk ∈ chunks, chunk.bytes ≠ [])
        ∧ chunks.map (·.index) = List.range chunks.length
        ∧ (∀ chunk ∈ chunks.dropLast, chunk.bytes.getLast? = some newline)
        ∧ ∀ chunk ∈ chunks, chunk.size ≤ 2 * config.chunkSize := by
  constructor
  · intro chunks c hrun
    have hpart := partitioned_of_emits h hrun
    refine ⟨?_, hpart.tidy.carry_open, ?_⟩
    · rw [List.append_assoc]
      exact hpart.bytes
    · rw [← hpart.config_eq]
      exact hpart.tidy.carry_short
  · intro chunks c hdrain
    -- a drain is a row of chunks with the end behind it
    obtain ⟨last, hrun, hend⟩ := ChunkFeed.drain_emits hdrain
    have hpart := partitioned_of_emits h hrun
    obtain ⟨hbytes, hfront⟩ := hpart.drained hend
    exact ⟨hbytes, hpart.nonempty, hpart.indices, hfront, hpart.size_le⟩

/-- Two lines and an unterminated one. A read is interrupted, the pieces are cut inside the second
line, and more data stands behind the end. The chunker cuts it into windows of four bytes. -/
def choppySource : Source :=
  [.data [97, 10], .fail (.plain .interrupted "signal"), .data [98, 99, 100], .data [10, 101],
    .endOfInput, .data [102]]

def choppyChunker : Chunker := ⟨some choppySource, ⟨4, 10⟩, by decide, [], 0⟩

def choppyChunks : List Chunk :=
  [⟨0, [97, 10], 10⟩, ⟨1, [98, 99, 100, 10], 10⟩, ⟨2, [101], 10⟩]

theorem chunks_partition_choppySource :
    ofSource choppySource ⟨4, 10⟩ = .ok choppyChunker
      ∧ (ChunkFeed.drain choppyChunker).1 = .ok choppyChunks
      ∧ choppyChunks.flatMap (·.bytes) = choppySource.upToEnd
      ∧ choppyChunks.map (·.index) = List.range 3
      ∧ ∀ chunk ∈ choppyChunks.dropLast, chunk.bytes.getLast? = some newline := by
  have hsource : ofSource choppySource ⟨4, 10⟩ = .ok choppyChunker := rfl
  have hdrain : (ChunkFeed.drain choppyChunker).1 = .ok choppyChunks := by decide +kernel
  obtain ⟨hbytes, -, hindices, hfront, -⟩ :=
    (chunks_partition_source hsource).2 _ _ (Prod.ext hdrain rfl)
  exact ⟨hsource, hdrain, hbytes, hindices, hfront⟩

end Chunker

end MessageFraming
