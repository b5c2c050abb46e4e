import MessageFraming.Chunk.Chunker
import MessageFraming.Proofs.Source.Ending

/-!
# Chunks and the pieces of a source

A source may cut its bytes anywhere and interrupt any read. None of this shows in the chunks: what a
call of a chunker answers, and what it carries over, depends on the bytes alone, and on the ending
behind them.

* `Chunker.next_full`, `Chunker.next_short`: a call takes a whole window, or meets the ending.
* `Chunker.Alike`: two chunkers that differ in the pieces still to come, and in nothing else.
* `Chunker.alike_next`: they answer alike and stay alike, so all their calls are the same
  (`Chunker.Alike.calls_eq`).
* `Chunker.fragmentation_invisible`: this holds from the start of any two sources that bring the
  same.
-/

namespace MessageFraming

namespace Chunker

/-! ## One call and the bytes to come -/

section

variable {c : Chunker} {s : Source} {bytes : Bytes} {ending : Source.Ending}

/-- Behind the source a call emits what was carried over. -/
theorem next_residual (hsource : c.source = none) :
    c.next = emit c.carry { c with carry := [] } := by
  unfold next
  rw [hsource]

/-- A whole window comes. -/
theorem next_full (hsource : c.source = some s) (hs : s.Brings bytes ending)
    (hfull : c.config.chunkSize ≤ bytes.length) :
    ∃ rest, c.next = cutWindow (bytes.take c.config.chunkSize) rest c
      ∧ rest.Brings (bytes.drop c.config.chunkSize) ending := by
  obtain ⟨rest, hgather, hrest⟩ := hs.gather_full hfull
  refine ⟨rest, ?_, hrest⟩
  unfold next
  rw [hsource]
  simp only [hgather]

/-- The ending comes before the window is full. -/
theorem next_short (hsource : c.source = some s) (hs : s.Brings bytes ending)
    (hshort : bytes.length < c.config.chunkSize) :
    ∃ rest, c.next = match ending with
      | .endOfInput => cutWindow bytes rest c
      | .failure e => (.error (.readFailed e), c.abort) := by
  obtain ⟨rest, hgather⟩ := hs.gather_short hshort
  refine ⟨rest, ?_⟩
  unfold next
  rw [hsource]
  simp only [hgather]
  cases ending with
  | endOfInput => rfl
  | failure e => rfl

end

/-! ## Chunkers that answer alike -/

/-- Two sources of which the same bytes are left and the same ending, or nothing is. -/
inductive SameLeft (ending : Source.Ending) : Option Source → Option Source → Prop where
  | gone : SameLeft ending none none
  | left {s t : Source} {bytes : Bytes} (hs : s.Brings bytes ending) (ht : t.Brings bytes ending) :
      SameLeft ending (some s) (some t)

/-- Both sources are gone, or both are left with the same bytes to bring. -/
theorem SameLeft.gone_or_left {ending : Source.Ending} {source source' : Option Source}
    (h : SameLeft ending source source') :
    source = none ∧ source' = none
      ∨ ∃ s t bytes, source = some s ∧ source' = some t ∧ s.Brings bytes ending
        ∧ t.Brings bytes ending := by
  cases h with
  | gone => exact Or.inl ⟨rfl, rfl⟩
  | left hs ht => exact Or.inr ⟨_, _, _, rfl, rfl, hs, ht⟩

/-- Two chunkers that differ in the pieces in which their bytes will come, and in nothing else. -/
inductive Alike (ending : Source.Ending) (c : Chunker) : Chunker → Prop where
  | differ {source : Option Source} (hsource : SameLeft ending c.source source) :
      Alike ending c { c with source := source }

/-- Two calls with the same answer, that leave two chunkers alike. -/
def AlikeCalls (ending : Source.Ending) (call call' : Outcome ChunkError (Option Chunk) × Chunker) :
    Prop :=
  call.1 = call'.1 ∧ Alike ending call.2 call'.2

section

variable {ending : Source.Ending} {c d : Chunker} {window : Bytes} {rest rest' : Source}

/-- Chunkers that are alike have one configuration. -/
theorem Alike.config (h : Alike ending c d) : d.config = c.config := by
  obtain ⟨-⟩ := h
  rfl

/-- They have carried over the same bytes. -/
theorem Alike.carry (h : Alike ending c d) : d.carry = c.carry := by
  obtain ⟨-⟩ := h
  rfl

/-- And they are left with the same to read. -/
theorem Alike.source (h : Alike ending c d) : SameLeft ending c.source d.source := by
  obtain ⟨hsource⟩ := h
  exact hsource

/-- The same change of both keeps them alike. -/
theorem Alike.change (h : Alike ending c d) (carry : Bytes) {source source' : Option Source}
    (hsource : SameLeft ending source source') :
    Alike ending { c with source := source, carry := carry }
      { d with source := source', carry := carry } := by
  obtain ⟨-⟩ := h
  exact .differ hsource

/-- They emit the same content as the same chunk. -/
theorem alike_emit (content : Bytes) (h : Alike ending c d) :
    AlikeCalls ending (emit content c) (emit content d) := by
  obtain ⟨hsource⟩ := h
  unfold emit
  split
  · exact ⟨rfl, .differ hsource⟩
  · exact ⟨rfl, .differ hsource⟩

/-- They give up with the same error. -/
theorem alike_abort (e : ChunkError) (h : Alike ending c d) :
    AlikeCalls ending (.error e, c.abort) (.error e, d.abort) := by
  obtain ⟨-⟩ := h
  exact ⟨rfl, .differ .gone⟩

/-- They close a window alike, whatever pieces the rest of their sources come in. -/
theorem alike_closeWindow (h : Alike ending c d) {later : Bytes} (hrest : rest.Brings later ending)
    (hrest' : rest'.Brings later ending) :
    AlikeCalls ending (closeWindow window rest c) (closeWindow window rest' d) := by
  have hgone := alike_abort (.noFrameBoundary c.config.chunkSize) h
  unfold closeWindow
  cases later with
  -- both meet the ending
  | nil =>
    obtain ⟨left, hpull⟩ := hrest.pullByte_nil
    obtain ⟨left', hpull'⟩ := hrest'.pullByte_nil
    rw [hpull, hpull']
    cases ending with
    | endOfInput =>
      obtain ⟨-⟩ := h
      exact alike_emit _ (.differ .gone)
    | failure e => exact alike_abort _ h
  -- both see the same byte, whatever piece it comes in
  | cons b later =>
    obtain ⟨left, hpull, hleft⟩ := hrest.pullByte_cons
    obtain ⟨left', hpull', hleft'⟩ := hrest'.pullByte_cons
    rw [hpull, hpull']
    obtain ⟨-⟩ := h
    by_cases hb : b = newline
    · simp only [if_pos hb]
      exact alike_emit _ (.differ (.left hleft hleft'))
    · simp only [if_neg hb]
      exact hgone

/-- A window that is not full ends the stream, whatever its source does behind it. -/
theorem alike_cutWindow (h : Alike ending c d)
    (hrest : c.config.chunkSize ≤ window.length →
      ∃ later, rest.Brings later ending ∧ rest'.Brings later ending) :
    AlikeCalls ending (cutWindow window rest c) (cutWindow window rest' d) := by
  have hclose : ∀ {later}, rest.Brings later ending → rest'.Brings later ending →
      AlikeCalls ending (closeWindow window rest c) (closeWindow window rest' d) :=
    fun hleft hleft' => alike_closeWindow h hleft hleft'
  obtain ⟨-⟩ := h
  unfold cutWindow sourceAfter
  rcases Nat.lt_or_ge window.length c.config.chunkSize with hshort | hfull
  · -- a short window is the last one, so no source is kept
    simp only [if_pos hshort]
    split
    · exact alike_emit _ (.differ .gone)
    · exact alike_emit _ (.differ .gone)
  · -- behind a whole one both sources are left with the same
    obtain ⟨later, hleft, hleft'⟩ := hrest hfull
    simp only [if_neg (Nat.not_lt.mpr hfull)]
    split
    · exact hclose hleft hleft'
    · exact alike_emit _ (.differ (.left hleft hleft'))

/-- **Chunkers that are alike answer alike**, and stay so. -/
theorem alike_next (h : Alike ending c d) : AlikeCalls ending c.next d.next := by
  rcases h.source.gone_or_left with ⟨hc, hd⟩ | ⟨s, t, bytes, hc, hd, hs, ht⟩
  · rw [next_residual hc, next_residual hd, h.carry]
    exact alike_emit _ (h.change [] h.source)
  · rcases Nat.lt_or_ge bytes.length c.config.chunkSize with hshort | hfull
    · -- neither comes to a whole window
      obtain ⟨rest, hnext⟩ := next_short hc hs hshort
      obtain ⟨rest', hnext'⟩ := next_short hd ht (h.config ▸ hshort)
      rw [hnext, hnext']
      cases ending with
      | endOfInput => exact alike_cutWindow h fun hfull => absurd hshort (Nat.not_lt.mpr hfull)
      | failure e => exact alike_abort _ h
    · -- both do, and it is the same one
      obtain ⟨rest, hnext, hrest⟩ := next_full hc hs hfull
      obtain ⟨rest', hnext', hrest'⟩ := next_full hd ht (h.config ▸ hfull)
      rw [h.config] at hnext' hrest'
      rw [hnext, hnext']
      exact alike_cutWindow h fun _ => ⟨_, hrest, hrest'⟩

end

/-! ## All calls -/

/-- The answers of the next `n` calls, ends and errors included, each with the length of what is
carried over behind it. -/
def calls : Nat → Chunker → List (Outcome ChunkError (Option Chunk) × Nat)
  | 0, _ => []
  | n + 1, c => (c.next.1, c.next.2.carry.length) :: calls n c.next.2

/-- So any number of calls on them is answered alike. -/
theorem Alike.calls_eq {ending : Source.Ending} {c d : Chunker} (h : Alike ending c d) (n : Nat) :
    calls n c = calls n d := by
  induction n generalizing c d with
  | zero => rfl
  | succ n ih =>
    obtain ⟨hanswer, hrest⟩ := alike_next h
    rw [calls, calls, hanswer, hrest.carry, ih hrest]

/-- A valid configuration is all that a chunker asks for. -/
theorem ofSource_valid (source : Source) {config : Chunk.Config} (hvalid : config.Valid) :
    ofSource source config = .ok ⟨some source, config, hvalid, [], 0⟩ := by
  unfold ofSource
  split
  · rename_i e hproblem
    rw [(config.problem?_eq_none_iff).mpr hvalid] at hproblem
    cases hproblem
  · rfl

/-- Two sources that bring the same bytes and the same ending make chunkers that are alike. -/
theorem alike_ofSource {source source' : Source} {config : Chunk.Config} {bytes : Bytes}
    {ending : Source.Ending} (h : source.Brings bytes ending) (h' : source'.Brings bytes ending)
    (hvalid : config.Valid) :
    ∃ c d, ofSource source config = .ok c ∧ ofSource source' config = .ok d ∧ Alike ending c d :=
  ⟨⟨some source, config, hvalid, [], 0⟩, ⟨some source', config, hvalid, [], 0⟩,
    ofSource_valid source hvalid, ofSource_valid source' hvalid, .differ (.left h h')⟩

/-- **Chunking does not depend on the pieces of a source.** Of two sources that bring the same bytes
and then come to the same end of input or the same failure, a chunker makes the same: every call
answers with the same chunk, the same end or the same error, and carries over as many bytes. -/
theorem fragmentation_invisible {source source' : Source} {config : Chunk.Config} {bytes : Bytes}
    {ending : Source.Ending} (hvalid : config.Valid) (h : source.Brings bytes ending)
    (h' : source'.Brings bytes ending) :
    ∃ c d, ofSource source config = .ok c ∧ ofSource source' config = .ok d
      ∧ ∀ n, calls n c = calls n d := by
  obtain ⟨c, d, hc, hd, halike⟩ := alike_ofSource h h' hvalid
  exact ⟨c, d, hc, hd, halike.calls_eq⟩

/-- A failure right behind a full window, which is met by the second call only. -/
def wholeSource : Source := [.data [97, 10, 98], .fail (.plain .brokenPipe "gone")]

/-- The same byte by byte. -/
def brokenSource : Source :=
  [.fail (.plain .interrupted "signal"), .data [97], .data [10],
    .fail (.plain .interrupted "signal"), .data [98], .fail (.plain .brokenPipe "gone"), .data [99]]

def wholeChunker : Chunker := ⟨some wholeSource, ⟨3, 10⟩, by decide, [], 0⟩

def brokenChunker : Chunker := ⟨some brokenSource, ⟨3, 10⟩, by decide, [], 0⟩

/-- The source breaks within its second line. The line before is handed out, and then the failure,
once. -/
theorem fragmentation_invisible_brokenSource :
    ofSource brokenSource ⟨3, 10⟩ = .ok brokenChunker
      ∧ calls 3 brokenChunker = [(.ok (some ⟨0, [97, 10], 10⟩), 1),
        (.error (.readFailed (.plain .brokenPipe "gone")), 0), (.ok none, 0)] := by
  have hwhole : ofSource wholeSource ⟨3, 10⟩ = .ok wholeChunker := rfl
  have hbroken : ofSource brokenSource ⟨3, 10⟩ = .ok brokenChunker := rfl
  have hcalls : calls 3 wholeChunker = [(.ok (some ⟨0, [97, 10], 10⟩), 1),
      (.error (.readFailed (.plain .brokenPipe "gone")), 0), (.ok none, 0)] := by decide +kernel
  have hvalid : Chunk.Config.Valid ⟨3, 10⟩ := by decide
  have hbrings : wholeSource.Brings [97, 10, 98] (.failure (.plain .brokenPipe "gone")) :=
    .data (.failed rfl)
  have hbrings' : brokenSource.Brings [97, 10, 98] (.failure (.plain .brokenPipe "gone")) :=
    .interrupted rfl (.data (.data (.interrupted rfl (.data (.failed rfl)))))
  -- the calls are evaluated on the source that comes whole
  obtain ⟨c, d, hc, hd, hsame⟩ := fragmentation_invisible hvalid hbrings hbrings'
  cases hwhole.symm.trans hc
  cases hbroken.symm.trans hd
  exact ⟨hbroken, (hsame 3).symm.trans hcalls⟩

end Chunker

end MessageFraming
