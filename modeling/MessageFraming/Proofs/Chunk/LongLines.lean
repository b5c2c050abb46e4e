import Mathlib.Data.List.Basic
import MessageFraming.Proofs.Chunk.Boundaries

/-!
# Lines that are too long for a chunk

Whether a line passes that is longer than a chunk, and less than twice as long, depends on where the
windows fall. All other lines are certain: one that fits a chunk never stops a chunker, and one that
is twice as long always does.

* `Chunker.FailureFree.next_ne_crash`: on a source that does not fail a call does not crash. So it
  hands out a chunk, ends the stream, or gives up at a line (`next_error`).
* `Chunker.next_overlong`: a line of two chunks that is next is not handed out. One window and the
  byte behind it cannot see its end, whatever of it was carried over.
* `Chunker.line_lt_of_next`: so no chunk holds such a line, and none of a run does
  (`Chunker.line_lt_of_emits`).
* `Chunker.GivesUpAt`: what a chunker has handed out when it gives up at a line, which is every line
  before it.
* `Chunker.stops_at_long_lines`: what becomes of a whole stream.
-/

namespace MessageFraming

/-- What stands in front of a cut ends with the delimiter, so the bytes hold one. -/
theorem Bytes.delimiter_mem_of_cutAfterLast {delimiter : UInt8} {bytes : Bytes}
    (h : (cutAfterLast delimiter bytes).1 ≠ []) : delimiter ∈ bytes := by
  rw [← cutAfterLast_append delimiter bytes]
  exact List.mem_append_left _ (List.mem_of_getLast? (cutAfterLast_getLast? h))

namespace Chunker

/-! ## One call -/

section

variable {c c' : Chunker} {window : Bytes} {rest : Source} {message : String}

/-- On a source that does not fail no call crashes. -/
theorem FailureFree.next_ne_crash (hfree : c.FailureFree) : c.next ≠ (.crash message, c') := by
  intro h
  rcases hfree.next_cases with ⟨content, d, hemit⟩ | ⟨-, -, b, behind, -, -, hnext⟩
  · exact emit_ne_crash (hemit.symm.trans h)
  · cases hnext.symm.trans h

/-- A full window and the byte behind it, all in one line. -/
theorem cutWindow_open {b : UInt8} {behind : Bytes} (hfull : window.length = c.config.chunkSize)
    (hwindow : newline ∉ window) (hrest : rest.Brings (b :: behind) .endOfInput)
    (hb : b ≠ newline) :
    cutWindow window rest c = (.error (.noFrameBoundary c.config.chunkSize), c.abort) := by
  have hcut : (Bytes.cutAfterLast newline window).1 = [] :=
    Decidable.byContradiction fun hne => hwindow (Bytes.delimiter_mem_of_cutAfterLast hne)
  obtain ⟨left, hpull, -⟩ := hrest.pullByte_cons
  unfold cutWindow closeWindow
  rw [if_pos hcut, if_neg (by omega), hpull]
  exact if_neg hb

/-- **A line of two chunks is not handed out.** What was carried over of it is less than a chunk, so
more than a chunk of it is ahead. -/
theorem next_overlong (hc : c.Tidy) (hfree : c.FailureFree)
    (hlong : 2 * c.config.chunkSize ≤ (Lines.first (c.carry ++ c.ahead)).length) :
    c.next = (.error (.noFrameBoundary c.config.chunkSize), c.abort) := by
  have hcarry := hc.carry_short
  rw [Lines.first_append_of_not_mem hc.carry_open, List.length_append] at hlong
  have hline := Lines.newline_not_mem_first c.ahead
  obtain ⟨behind, hahead⟩ : Lines.first c.ahead <+: c.ahead := List.takeWhile_prefix _
  have hlen := congrArg List.length hahead
  rw [List.length_append] at hlen
  cases hsource : c.source with
  | none =>
    have hnone : c.ahead.length = 0 := congrArg List.length (ahead_of_none hsource)
    omega
  | some s =>
    obtain ⟨rest, hnext, hrest⟩ := next_full hsource (hfree.brings hsource) (by omega)
    -- the window takes a chunk of the line, and another byte of it is behind
    have hfront : c.config.chunkSize ≤ (Lines.first c.ahead).length := by omega
    have hwindow : (Lines.first c.ahead ++ behind).take c.config.chunkSize
        = (Lines.first c.ahead).take c.config.chunkSize := List.take_append_of_le_length hfront
    have hbehind : (Lines.first c.ahead ++ behind).drop c.config.chunkSize
        = (Lines.first c.ahead).drop c.config.chunkSize ++ behind :=
      List.drop_append_of_le_length hfront
    rw [hahead] at hwindow hbehind
    cases hdrop : (Lines.first c.ahead).drop c.config.chunkSize with
    | nil =>
      have := List.drop_eq_nil_iff.mp hdrop
      omega
    | cons b more =>
      have hb : b ≠ newline := by
        rintro rfl
        exact hline (List.mem_of_mem_drop (hdrop ▸ List.mem_cons_self))
      rw [hbehind, hdrop] at hrest
      rw [hnext, hwindow]
      refine cutWindow_open ?_ (fun hmem => hline (List.mem_of_mem_take hmem)) hrest hb
      rw [List.length_take]
      omega

/-- **No chunk holds a line of two chunks.** It would be all of the chunk, and so it would have been
next. -/
theorem line_lt_of_next {chunk : Chunk} (hc : c.Tidy) (hfree : c.FailureFree)
    (h : c.next = (.ok (some chunk), c')) :
    ∀ line ∈ Lines.split chunk.bytes, line.length < 2 * c.config.chunkSize := by
  intro line hmem
  refine Nat.lt_of_not_le fun hlong => ?_
  have hcut := next_cut hc h
  obtain ⟨hinside, hline⟩ := Lines.of_mem_split hmem
  have hsize : chunk.bytes.length ≤ 2 * c.config.chunkSize := hcut.size_le
  have hall : line = chunk.bytes := hinside.eq_of_length_le (by omega)
  have hnext := next_overlong hc hfree (by
    rw [hcut.bytes, ← hall, Lines.first_append_of_not_mem hline, List.length_append]
    omega)
  cases hnext.symm.trans h

end

/-! ## Runs -/

section

variable {source : Source} {input : Bytes} {config : Chunk.Config} {chunker c : Chunker}
  {chunks : List Chunk}

/-- The lines of all chunks are shorter than two chunks. Induction on the calls. -/
theorem line_lt_of_emits (hsource : source.Brings input .endOfInput)
    (hchunker : ofSource source config = .ok chunker) (hrun : ChunkFeed.Emits chunker chunks c) :
    ∀ chunk ∈ chunks, ∀ line ∈ Lines.split chunk.bytes, line.length < 2 * config.chunkSize := by
  induction hrun with
  | start => exact fun chunk hmem => absurd hmem List.not_mem_nil
  | next hbefore hnext ih =>
    have hpart := partitioned_of_emits hchunker hbefore
    have hfree := failureFree_of_emits (failureFree_ofSource hsource hchunker) hbefore
    refine forall_mem_concat ih ?_
    rw [← hpart.config_eq]
    exact line_lt_of_next hpart.tidy hfree hnext

/-- Drained, the chunker fails at line `k` of the input: it has handed out all lines before it, each
with its `\n`, and the line is longer than a chunk. -/
structure GivesUpAt (chunker : Chunker) (input : Bytes) (k : Nat) : Prop where
  drain : (ChunkFeed.drain chunker).1 = .error (.noFrameBoundary chunker.config.chunkSize)
  handedOut : ∃ chunks c, ChunkFeed.Emits chunker chunks c
    ∧ c.next.1 = .error (.noFrameBoundary chunker.config.chunkSize)
    ∧ chunks.flatMap (·.bytes) = ((Lines.split input).take k).flatMap (· ++ [newline])
  long : ∃ line, (Lines.split input)[k]? = some line ∧ chunker.config.chunkSize < line.length

/-- The lines of chunks that all end on line boundaries. -/
theorem flatMap_split_chunks (h : ∀ chunk ∈ chunks, chunk.bytes.getLast? = some newline) :
    (chunks.flatMap fun chunk => Lines.split chunk.bytes).flatMap (· ++ [newline])
      = chunks.flatMap (·.bytes) := by
  rw [List.flatMap_assoc]
  exact List.flatMap_congr fun chunk hmem => Lines.flatMap_split (Or.inr (h chunk hmem))

/-- A failing drain fails at a line. -/
theorem givesUpAt_of_drain (hsource : source.Brings input .endOfInput)
    (hchunker : ofSource source config = .ok chunker) {e : ChunkError} {rest : Chunker}
    (h : ChunkFeed.drain chunker = (.error e, rest)) :
    ∃ k, GivesUpAt chunker input k
      ∧ ∀ line ∈ (Lines.split input).take k, line.length < 2 * config.chunkSize := by
  obtain ⟨chunks, c, hrun, hnext, -⟩ := ChunkFeed.drain_ends h
  have hfree := failureFree_of_emits (failureFree_ofSource hsource hchunker) hrun
  have hpart := partitioned_of_emits hchunker hrun
  obtain ⟨rfl, hlong⟩ := next_error hpart.tidy hfree hnext
  have hne := Lines.ne_nil_of_lt_length_first hlong
  have hlines : Lines.split input
      = chunks.flatMap (fun chunk => Lines.split chunk.bytes)
        ++ Lines.first (c.carry ++ c.ahead)
          :: Lines.split (Lines.behindFirst (c.carry ++ c.ahead)) := by
    rw [← Lines.split_eq_first_cons hne, ← hpart.split_upToEnd, hsource.upToEnd_eq]
  have hfront : (Lines.split input).take
        (chunks.flatMap fun chunk => Lines.split chunk.bytes).length
      = chunks.flatMap fun chunk => Lines.split chunk.bytes := by
    rw [hlines, List.take_left]
  -- an unterminated chunk would have been the last one, and no call fails behind it
  have hboundary : ∀ chunk ∈ chunks, chunk.bytes.getLast? = some newline := by
    rcases hpart.boundary with hall | ⟨hgone, hcarry, -⟩
    · exact hall
    · rw [hcarry, ahead_of_none hgone] at hne
      exact absurd rfl hne
  have hconfig : c.config = chunker.config :=
    hpart.config_eq.trans (partitioned_ofSource hchunker).config_eq.symm
  rw [hconfig] at hnext hlong h
  refine ⟨(chunks.flatMap fun chunk => Lines.split chunk.bytes).length, ?_, ?_⟩
  · refine ⟨congrArg Prod.fst h, ⟨chunks, c, hrun, congrArg Prod.fst hnext, ?_⟩, _, ?_, hlong⟩
    · rw [hfront, flatMap_split_chunks hboundary]
    · rw [hlines, List.getElem?_append_right (Nat.le_refl _), Nat.sub_self]
      rfl
  · intro line hmem
    rw [hfront] at hmem
    obtain ⟨chunk, hchunk, hline⟩ := List.mem_flatMap.mp hmem
    exact line_lt_of_emits hsource hchunker hrun chunk hchunk line hline

/-- **How a drain comes to its end**: with all lines handed out, or at a line that is longer than a
chunk. Either way no line of two chunks has been handed out. -/
theorem drain_cases (hsource : source.Brings input .endOfInput)
    (hchunker : ofSource source config = .ok chunker) :
    (∃ chunks, (ChunkFeed.drain chunker).1 = .ok chunks
        ∧ (chunks.flatMap fun chunk => Lines.split chunk.bytes) = Lines.split input
        ∧ ∀ line ∈ Lines.split input, line.length < 2 * config.chunkSize)
      ∨ ∃ k, GivesUpAt chunker input k
        ∧ ∀ line ∈ (Lines.split input).take k, line.length < 2 * config.chunkSize := by
  rcases hdrain : ChunkFeed.drain chunker with ⟨outcome, rest⟩
  cases outcome with
  | ok chunks =>
    obtain ⟨c, hrun, hend⟩ := ChunkFeed.drain_emits hdrain
    have hpart := partitioned_of_emits hchunker hrun
    -- at the end nothing is left over, so the lines of the chunks are all lines
    obtain ⟨hcarry, hahead⟩ := next_end hpart.tidy hend
    have hlines := hpart.split_upToEnd
    rw [hsource.upToEnd_eq, hcarry, hahead, List.append_nil, Lines.split_nil,
      List.append_nil] at hlines
    refine Or.inl ⟨chunks, rfl, hlines.symm, ?_⟩
    intro line hmem
    rw [hlines] at hmem
    obtain ⟨chunk, hchunk, hline⟩ := List.mem_flatMap.mp hmem
    exact line_lt_of_emits hsource hchunker hrun chunk hchunk line hline
  | error e => exact Or.inr (givesUpAt_of_drain hsource hchunker hdrain)
  | crash message =>
    obtain ⟨chunks, c, hrun, hnext, -⟩ := ChunkFeed.drain_ends hdrain
    have hfree := failureFree_of_emits (failureFree_ofSource hsource hchunker) hrun
    exact absurd hnext hfree.next_ne_crash

/-- **Which lines stop a chunker.** Let a source bring `input`, in any pieces and with interruptions
anywhere, and then come to its end.

If draining a chunker on it fails, it fails at a line that is longer than a chunk, and what was
handed out before is all lines in front of that one, complete. So if all lines fit a chunk, draining
succeeds, and all lines are handed out. And a line of two chunks or more stops the chunker, unless
an earlier line does. -/
theorem stops_at_long_lines (hsource : source.Brings input .endOfInput)
    (hchunker : ofSource source config = .ok chunker) :
    (∀ e, (ChunkFeed.drain chunker).1 = .error e →
      e = .noFrameBoundary config.chunkSize ∧ ∃ k, GivesUpAt chunker input k)
    ∧ ((∀ line ∈ Lines.split input, line.length ≤ config.chunkSize) →
      ∃ chunks, (ChunkFeed.drain chunker).1 = .ok chunks
        ∧ (chunks.flatMap fun chunk => Lines.split chunk.bytes) = Lines.split input)
    ∧ ∀ i line, (Lines.split input)[i]? = some line → 2 * config.chunkSize ≤ line.length →
      ∃ k, k ≤ i ∧ GivesUpAt chunker input k := by
  have hconfig : chunker.config = config := (partitioned_ofSource hchunker).config_eq
  have hcases := drain_cases hsource hchunker
  refine ⟨?_, ?_, ?_⟩
  · intro e herror
    rcases hcases with ⟨chunks, hok, -⟩ | ⟨k, hgives, -⟩
    · cases hok.symm.trans herror
    · cases hgives.drain.symm.trans herror
      exact ⟨by rw [hconfig], k, hgives⟩
  · intro hfits
    rcases hcases with ⟨chunks, hok, hlines, -⟩ | ⟨k, hgives, -⟩
    · exact ⟨chunks, hok, hlines⟩
    · obtain ⟨line, hline, hlong⟩ := hgives.long
      rw [hconfig] at hlong
      exact absurd (hfits line (List.mem_of_getElem? hline)) (Nat.not_le.mpr hlong)
  · intro i line hi hlong
    rcases hcases with ⟨-, -, -, hshort⟩ | ⟨k, hgives, hshort⟩
    · exact absurd (hshort line (List.mem_of_getElem? hi)) (Nat.not_lt.mpr hlong)
    · refine ⟨k, Nat.le_of_not_lt fun hlt => ?_, hgives⟩
      -- the line would be among those that were handed out
      have hmem : line ∈ (Lines.split input).take k :=
        List.mem_of_getElem? ((List.getElem?_take_of_lt hlt).trans hi)
      exact absurd (hshort line hmem) (Nat.not_lt.mpr hlong)

end

/-- An empty line, one of five bytes, and one of six, which is two chunks of three. -/
def longSource : Source :=
  [.data [10, 99, 100], .fail (.plain .interrupted "signal"), .data [101, 102, 103, 10, 104, 105],
    .data [106, 107, 108, 109, 10, 97], .endOfInput]

def longInput : Bytes := [10, 99, 100, 101, 102, 103, 10, 104, 105, 106, 107, 108, 109, 10, 97]

theorem valid_threeBytes : Chunk.Config.Valid ⟨3, 10⟩ := by decide

def longChunker : Chunker := ⟨some longSource, ⟨3, 10⟩, valid_threeBytes, [], 0⟩

/-- The third line is as long as two chunks, so at most two lines come out. On the other source all
lines fit. -/
theorem stops_at_long_lines_longSource :
    Lines.split longInput
        = [[], [99, 100, 101, 102, 103], [104, 105, 106, 107, 108, 109], [97]]
      ∧ (∃ k, k ≤ 2 ∧ GivesUpAt longChunker longInput k)
      ∧ ∃ chunks, (ChunkFeed.drain choppyChunker).1 = .ok chunks
        ∧ (chunks.flatMap fun chunk => Lines.split chunk.bytes) = [[97], [98, 99, 100], [101]] := by
  have hlong : longSource.Brings longInput .endOfInput :=
    .data (.interrupted rfl (.data (.data .ended)))
  have hchoppy : choppySource.Brings [97, 10, 98, 99, 100, 10, 101] .endOfInput :=
    .data (.interrupted rfl (.data (.data .ended)))
  have hsplit : Lines.split longInput
      = [[], [99, 100, 101, 102, 103], [104, 105, 106, 107, 108, 109], [97]] := by decide +kernel
  have hsplit' : Lines.split [97, 10, 98, 99, 100, 10, 101] = [[97], [98, 99, 100], [101]] := by
    decide +kernel
  have hchunker : ofSource longSource ⟨3, 10⟩ = .ok longChunker := rfl
  have hchunker' : ofSource choppySource ⟨4, 10⟩ = .ok choppyChunker := rfl
  -- a line of two chunks stops the first source, and none of the other is longer than a chunk
  obtain ⟨-, -, hstops⟩ := stops_at_long_lines hlong hchunker
  obtain ⟨-, hpasses, -⟩ := stops_at_long_lines hchoppy hchunker'
  refine ⟨hsplit, hstops 2 [104, 105, 106, 107, 108, 109] (by rw [hsplit]; rfl) (by decide), ?_⟩
  rw [hsplit'] at hpasses
  exact hpasses (by decide)

/-- In between, both is possible: of two lines as long as a chunk and one byte, one passes. -/
example : (ChunkFeed.drain
      (⟨some [.data [10, 99, 100, 101, 102, 10]], ⟨3, 10⟩, by decide, [], 0⟩ : Chunker)).1
    = .ok [⟨0, [10], 10⟩, ⟨1, [99, 100, 101, 102, 10], 10⟩] := by
  decide +kernel

example : (ChunkFeed.drain
      (⟨some [.data [99, 100, 101, 102, 10]], ⟨3, 10⟩, by decide, [], 0⟩ : Chunker)).1
    = .error (.noFrameBoundary 3) := by
  decide +kernel

end Chunker

end MessageFraming
