import MessageFraming.Chunk
import MessageFraming.Source.Gather

/-!
# Cutting a stream into chunks

A chunker reads windows of `chunkSize` bytes. What a window holds up to its last `\n`, behind the
bytes carried over from the window before, is a chunk; the rest is carried over.

- A short window means that the source has ended. What is carried over then comes as one last chunk.
- A full window without `\n` is a chunk only if the frame ends right there: at the end of input, or
  with a `\n` as the very next byte. Otherwise the frame is longer than a chunk, which is an error.

After the end and after any error a chunker is exhausted: it never touches its source again. A
failure drops what was read and what was carried.
-/

namespace MessageFraming

structure Chunker where
  /-- Gone once it has ended or failed. -/
  source : Option Source
  config : Chunk.Config
  valid : config.Valid
  /-- Bytes held back for the next chunk. -/
  carry : Bytes
  nextIndex : Nat

namespace Chunker

def ofSource (source : Source) (config : Chunk.Config) : Except ChunkError Chunker :=
  match h : config.problem? with
  | some e => .error e
  | none => .ok ⟨some source, config, (config.problem?_eq_none_iff).mp h, [], 0⟩

/-- Hands out `content` as the next chunk; without content the stream is at its end. -/
def emit (content : Bytes) (c : Chunker) : Outcome ChunkError (Option Chunk) × Chunker :=
  if content.isEmpty then (.ok none, c)
  else
    (.ok (some ⟨c.nextIndex, content, c.config.maxLineLength⟩),
      { c with nextIndex := c.nextIndex + 1 })

section

variable {content : Bytes} {c c' : Chunker}

/-- A chunk has the content and the next index, and only the index goes on. -/
theorem emit_some {chunk : Chunk} (h : emit content c = (.ok (some chunk), c')) :
    content ≠ [] ∧ chunk = ⟨c.nextIndex, content, c.config.maxLineLength⟩
      ∧ c' = { c with nextIndex := c.nextIndex + 1 } := by
  unfold emit at h
  split at h
  · cases h
  · rename_i hne
    cases h
    exact ⟨fun hnil => hne (List.isEmpty_iff.mpr hnil), rfl, rfl⟩

/-- Nothing is emitted only where there is nothing to emit. -/
theorem emit_none (h : emit content c = (.ok none, c')) : content = [] ∧ c' = c := by
  unfold emit at h
  split at h
  · rename_i hempty
    cases h
    exact ⟨List.isEmpty_iff.mp hempty, rfl⟩
  · cases h

theorem emit_ne_error {e : ChunkError} : emit content c ≠ (.error e, c') := by
  intro h
  unfold emit at h
  split at h <;> cases h

theorem emit_ne_crash {message : String} : emit content c ≠ (.crash message, c') := by
  intro h
  unfold emit at h
  split at h <;> cases h

end

/-- Gives up: the source and the carried bytes are dropped. -/
def abort (c : Chunker) : Chunker := { c with source := none, carry := [] }

/-- A full window without a boundary: the byte behind it decides whether the frame ends there. -/
def closeWindow (window : Bytes) (rest : Source) (c : Chunker) :
    Outcome ChunkError (Option Chunk) × Chunker :=
  match pullByte rest with
  | (.ok none, _) => emit (c.carry ++ window) { c with source := none, carry := [] }
  | (.ok (some b), rest) =>
    if b = newline then
      emit (c.carry ++ (window ++ [newline])) { c with source := some rest, carry := [] }
    else (.error (.noFrameBoundary c.config.chunkSize), c.abort)
  | (.error e, _) => (.error (.readFailed e), c.abort)
  | (.crash message, rest) => (.crash message, { c with source := some rest })

/-- The source after a window: a short window means that it has ended. -/
def sourceAfter (window : Bytes) (rest : Source) (c : Chunker) : Option Source :=
  if window.length < c.config.chunkSize then none else some rest

/-- Cuts a window that was read, with `rest` left of the source. -/
def cutWindow (window : Bytes) (rest : Source) (c : Chunker) :
    Outcome ChunkError (Option Chunk) × Chunker :=
  if (Bytes.cutAfterLast newline window).1 = [] then
    if window.length < c.config.chunkSize then
      emit (c.carry ++ window) { c with source := none, carry := [] }
    else closeWindow window rest c
  else
    emit (c.carry ++ (Bytes.cutAfterLast newline window).1)
      { c with
        source := c.sourceAfter window rest
        carry := (Bytes.cutAfterLast newline window).2 }

def next (c : Chunker) : Outcome ChunkError (Option Chunk) × Chunker :=
  match c.source with
  | none => emit c.carry { c with carry := [] }
  | some source =>
    let g := gather c.config.chunkSize source
    match g.outcome with
    | .ok () => cutWindow g.bytes g.supply c
    | .error e => (.error (.readFailed e), c.abort)
    | .crash message => (.crash message, { c with source := some g.supply })

/-! ### What a chunk costs -/

/-- Bytes that are still to be handed out. -/
def remaining (c : Chunker) : Nat :=
  (match c.source with
    | none => 0
    | some source => source.left) + c.carry.length

/-- A chunk is not empty, so it costs some of what remains. -/
theorem emit_remaining_lt {content : Bytes} {c c' : Chunker} {chunk : Chunk} {n : Nat}
    (h : emit content c = (.ok (some chunk), c'))
    (hcost : content.length + c.remaining ≤ n) : c'.remaining < n := by
  obtain ⟨hne, -, rfl⟩ := emit_some h
  have hpos := List.length_pos_iff.mpr hne
  simp only [remaining] at hcost ⊢
  omega

/-- A chunk out of a closed window has bytes of the window or bytes that were carried over. -/
theorem closeWindow_remaining_lt {window : Bytes} {rest : Source} {c c' : Chunker} {chunk : Chunk}
    (h : closeWindow window rest c = (.ok (some chunk), c')) :
    c'.remaining < window.length + rest.left + c.carry.length := by
  unfold closeWindow at h
  split at h
  · -- the source is at its end, and everything is in the chunk
    refine emit_remaining_lt h ?_
    simp only [remaining, List.length_append, List.length_nil]
    omega
  · rename_i b after hbyte
    -- the line feed behind the window is one more byte
    have hlt : after.left < rest.left := pullByte_remaining_lt hbyte
    split at h
    · refine emit_remaining_lt h ?_
      simp only [remaining, List.length_append, List.length_nil, List.length_cons]
      omega
    · simp at h
  · simp at h
  · simp at h

/-- So has one out of a window that is cut. The other bytes of the window are carried on. -/
theorem cutWindow_remaining_lt {window : Bytes} {rest : Source} {c c' : Chunker} {chunk : Chunk}
    (h : cutWindow window rest c = (.ok (some chunk), c')) :
    c'.remaining < window.length + rest.left + c.carry.length := by
  unfold cutWindow at h
  -- what is cut off and what is carried on make up the window
  have hcut := congrArg List.length (Bytes.cutAfterLast_append newline window)
  rw [List.length_append] at hcut
  split at h
  · split at h
    · refine emit_remaining_lt h ?_
      simp only [remaining, List.length_append, List.length_nil]
      omega
    · exact closeWindow_remaining_lt h
  · refine emit_remaining_lt h ?_
    simp only [remaining, sourceAfter, List.length_append]
    split <;> rename_i hsource
    · omega
    · split at hsource
      · simp at hsource
      · simp only [Option.some.injEq] at hsource
        subst hsource
        omega

/-- The bytes of a chunk are gone from the chunker. -/
theorem next_remaining_lt {c c' : Chunker} {chunk : Chunk}
    (h : c.next = (.ok (some chunk), c')) : c'.remaining < c.remaining := by
  unfold next at h
  split at h
  · rename_i hsource
    refine emit_remaining_lt h ?_
    simp [remaining, hsource]
  · rename_i source hsource
    -- what was gathered is what the source has lost
    have hcost : (gather c.config.chunkSize source).bytes.length
        + (gather c.config.chunkSize source).supply.left = source.left :=
      gather_remaining c.config.chunkSize source
    simp only at h
    split at h
    · have hlt := cutWindow_remaining_lt h
      rw [hcost] at hlt
      simpa [remaining, hsource] using hlt
    · simp at h
    · simp at h

instance : FiniteChunkFeed Chunker where
  next := next
  budget := remaining
  budget_lt := next_remaining_lt

end Chunker

end MessageFraming
