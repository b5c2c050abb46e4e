import MessageFraming.Proofs.Chunk.Boundaries
import MessageFraming.Proofs.Chunk.Failures
import MessageFraming.Proofs.Source.Sights

/-!
# The end of a chunker

A chunker lets go of its source at the end of the stream and at its first error, and nothing brings
the source back. The end is noticed in three places and a failure in two, and one window may have
been read by then, with a byte behind it and a carry in front. To tell what becomes of these bytes,
a call is taken apart: into what it reads, and what it concludes from that.

* `Chunker.Reading`: what a call takes of its source, and the source that is left.
  `Chunker.next_eq_conclude`: a call sees nothing else of it.
* `Chunker.Reads`: the row of sights before and after a reading (`reads_reading`).
* `Chunker.Conduct`: what a call does with its source. All readings are gone through here once
  (`next_conduct`).
* `Chunker.Exhausted`: the state behind the end and behind an error. A call that hands out no chunk
  leads to it (`exhausted_of_next`), and no call leads out of it (`Exhausted.next_eq`).
* `Chunker.sights_of_emits`: while the source is kept, chunks and carry are all that was taken of
  it.
* `Chunker.Loses`: what a run has handed out and what it has lost when it ends in an error.
-/

namespace MessageFraming

namespace Chunker

/-! ## What a call reads -/

inductive Reading where
  | window (how : Outcome IoError Unit) (bytes : Bytes) (rest : Source)
  /-- The byte behind a full window without a boundary was asked for as well. -/
  | past (bytes : Bytes) (next : Outcome IoError (Option UInt8)) (rest : Source)

/-- The bytes that have left the source. -/
def Reading.taken : Reading → Bytes
  | window _ bytes _ => bytes
  | past bytes (.ok (some b)) _ => bytes ++ [b]
  | past bytes _ _ => bytes

def Reading.rest : Reading → Source
  | window _ _ rest => rest
  | past _ _ rest => rest

/-- What the next call reads. Without a source it reads nothing. -/
def reading (c : Chunker) : Option Reading :=
  c.source.map fun source =>
    let g := gather c.config.chunkSize source
    if g.outcome = .ok () ∧ c.config.chunkSize ≤ g.bytes.length
        ∧ (Bytes.cutAfterLast newline g.bytes).1 = [] then
      .past g.bytes (pullByte g.supply).1 (pullByte g.supply).2
    else .window g.outcome g.bytes g.supply

/-- What a call makes of its reading. -/
def conclude (c : Chunker) : Option Reading → Outcome ChunkError (Option Chunk) × Chunker
  | none => emit c.carry { c with source := none, carry := [] }
  | some (.window (.ok ()) bytes rest) =>
    if (Bytes.cutAfterLast newline bytes).1 = [] then
      emit (c.carry ++ bytes) { c with source := none, carry := [] }
    else
      emit (c.carry ++ (Bytes.cutAfterLast newline bytes).1)
        { c with
          source := c.sourceAfter bytes rest
          carry := (Bytes.cutAfterLast newline bytes).2 }
  | some (.past bytes (.ok none) _) =>
    emit (c.carry ++ bytes) { c with source := none, carry := [] }
  | some (.past bytes (.ok (some b)) rest) =>
    if b = newline then
      emit (c.carry ++ (bytes ++ [newline])) { c with source := some rest, carry := [] }
    else (.error (.noFrameBoundary c.config.chunkSize), c.abort)
  | some (.window (.error e) _ _) | some (.past _ (.error e) _) => (.error (.readFailed e), c.abort)
  | some (.window (.crash message) _ rest) | some (.past _ (.crash message) rest) =>
    (.crash message, { c with source := some rest })

/-- **A call sees nothing of its source but its reading.** -/
theorem next_eq_conclude (c : Chunker) : c.next = c.conclude c.reading := by
  cases hsource : c.source with
  | none =>
    rw [next_residual hsource, reading, hsource]
    show _ = emit c.carry { c with source := none, carry := [] }
    rw [← hsource]
  | some source =>
    rw [reading, hsource, Option.map_some]
    unfold next
    rw [hsource]
    simp only
    generalize gather c.config.chunkSize source = g
    obtain ⟨outcome, bytes, supply⟩ := g
    cases outcome with
    | error _ | crash _ => rfl
    | ok _ =>
      simp only [true_and]
      unfold cutWindow
      -- a byte behind the window is asked for if there is no line end in it and it is whole
      by_cases hhead : (Bytes.cutAfterLast newline bytes).1 = []
      · rcases Nat.lt_or_ge bytes.length c.config.chunkSize with hshort | hfull
        · rw [if_pos hhead, if_pos hshort, if_neg fun h => absurd h.1 (Nat.not_le.mpr hshort)]
          exact (if_pos hhead).symm
        · rw [if_pos hhead, if_neg (Nat.not_lt.mpr hfull), if_pos ⟨hfull, hhead⟩]
          unfold closeWindow
          rcases pullByte supply with ⟨byte, rest⟩
          cases byte with
          | ok byte => cases byte <;> rfl
          | error _ | crash _ => rfl
      · rw [if_neg hhead, if_neg fun h => hhead h.2]
        exact (if_neg hhead).symm

/-- What is seen of a source in a reading that wants `n` bytes. -/
inductive Reads (n : Nat) (s : Source) : Reading → Prop where
  | full {bytes : Bytes} {rest : Source} : bytes.length = n →
      s.sights = Sight.ofBytes bytes ++ rest.sights → Reads n s (.window (.ok ()) bytes rest)
  | stopped {how : Outcome IoError Unit} {bytes : Bytes} {rest : Source} : bytes.length < n →
      Passes s.sights (Sight.ofBytes bytes ++ [.stop how rest]) rest.sights →
      Reads n s (.window how bytes rest)
  | past {bytes : Bytes} {b : UInt8} {rest : Source} : bytes.length = n →
      s.sights = Sight.ofBytes (bytes ++ [b]) ++ rest.sights →
      Reads n s (.past bytes (.ok (some b)) rest)
  | stoppedPast {how : Outcome IoError Unit} {bytes : Bytes} {rest : Source} : bytes.length = n →
      Passes s.sights (Sight.ofBytes bytes ++ [.stop how rest]) rest.sights →
      Reads n s (.past bytes (how.map fun _ => none) rest)

/-- Where a call reads, it has seen of its source what it read. -/
theorem reads_reading {c : Chunker} {r : Reading} (h : c.reading = some r) :
    ∃ s, c.source = some s ∧ Reads c.config.chunkSize s r := by
  unfold reading at h
  obtain ⟨s, hsource, hr⟩ := Option.map_eq_some_iff.mp h
  refine ⟨s, hsource, ?_⟩
  rcases gather_sights c.config.chunkSize s with
    ⟨taken, rest, hgather, hlen, hsights⟩ | ⟨taken, how, behind, hgather, hlen, hpasses⟩
  · simp only [hgather, true_and] at hr
    -- the window is whole, and a byte behind it may be needed
    split at hr
    · rcases pullByte_sights rest with ⟨b, rest', hbyte, hnext⟩ | ⟨how, behind, hbyte, hnext⟩
      · rw [hbyte] at hr
        subst hr
        refine .past hlen ?_
        rw [Sight.ofBytes_append, List.append_assoc]
        exact hsights.trans (congrArg (Sight.ofBytes taken ++ ·) hnext)
      · rw [hbyte] at hr
        subst hr
        exact .stoppedPast hlen ((Passes.of_eq hsights).trans hnext)
    · subst hr
      exact .full hlen hsights
  · -- the stop was met before
    have hshort : ¬ c.config.chunkSize ≤ taken.length := Nat.not_le.mpr hlen
    simp only [hgather, hshort, false_and, and_false, if_false] at hr
    subst hr
    exact .stopped hlen hpasses

/-! ## What a call does with its source -/

/-- What is seen of a source in a call that ends in `e` and has taken `taken` of it. -/
inductive Stops (n : Nat) (taken : Bytes) (rest : Source) : ChunkError → List Sight → Prop where
  /-- The failure is the next that is seen, and the source behind it is left. -/
  | failed (cause : IoError) : Stops n taken rest (.readFailed cause)
      (Sight.ofBytes taken ++ .stop (.error cause) rest :: rest.sights)
  | noBoundary : Stops n taken rest (.noFrameBoundary n) (Sight.ofBytes taken ++ rest.sights)

/-- What was taken and what is left make up the data of the source. -/
theorem Stops.data {n : Nat} {taken : Bytes} {rest s : Source} {e : ChunkError}
    (h : Stops n taken rest e s.sights) : s.data = taken ++ rest.data := by
  rw [← s.data_sights, ← rest.data_sights]
  generalize s.sights = row at h
  cases h with
  | failed cause =>
    rw [List.filterMap_append, Sight.bytes_ofBytes]
    rfl
  | noBoundary => rw [List.filterMap_append, Sight.bytes_ofBytes]

/-- Bytes that were seen before belong to what was taken. -/
theorem Stops.append {n : Nat} {taken : Bytes} {rest : Source} {e : ChunkError} {row : List Sight}
    (h : Stops n taken rest e row) (before : Bytes) :
    Stops n (before ++ taken) rest e (Sight.ofBytes before ++ row) := by
  cases h with
  | failed cause =>
    rw [← List.append_assoc, ← Sight.ofBytes_append]
    exact .failed cause
  | noBoundary =>
    rw [← List.append_assoc, ← Sight.ofBytes_append]
    exact .noBoundary

inductive Conduct (c : Chunker) : Outcome ChunkError (Option Chunk) × Chunker → Prop where
  /-- What was taken of the source is handed out or carried over. -/
  | keeps {s rest : Source} {content : Bytes} {d : Chunker} : c.source = some s →
      d.source = some rest →
      Sight.ofBytes c.carry ++ s.sights = Sight.ofBytes (content ++ d.carry) ++ rest.sights →
      Conduct c (emit content d)
  | drops {content : Bytes} {d : Chunker} : d.source = none → Conduct c (emit content d)
  /-- A window and a byte were taken at most. -/
  | aborts {s : Source} {r : Reading} {e : ChunkError} : c.source = some s → c.reading = some r →
      r.taken.length ≤ c.config.chunkSize + 1 →
      Stops c.config.chunkSize r.taken r.rest e s.sights → Conduct c (.error e, c.abort)
  | crashes (message : String) (d : Chunker) : Conduct c (.crash message, d)

/-- **What a call can do.** The cases are those of its reading. -/
theorem next_conduct (c : Chunker) : Conduct c c.next := by
  rw [next_eq_conclude]
  cases hreading : c.reading with
  | none => exact .drops rfl
  | some r =>
    obtain ⟨s, hsource, hreads⟩ := reads_reading hreading
    cases hreads with
    -- the head of the window goes out, and its tail is carried on
    | @full bytes rest hlen hsights =>
      rw [conclude]
      split
      · exact .drops rfl
      · refine .keeps hsource (if_neg (Nat.not_lt.mpr (Nat.le_of_eq hlen.symm))) ?_
        rw [hsights, List.append_assoc c.carry, Bytes.cutAfterLast_append,
          Sight.ofBytes_append, List.append_assoc]
    -- a stop within the window
    | @stopped how bytes rest hlen hpasses =>
      cases how with
      | ok _ =>
        rw [conclude]
        split
        · exact .drops rfl
        · exact .drops (if_pos hlen)
      | error cause =>
        refine .aborts hsource hreading (Nat.le_succ_of_le (Nat.le_of_lt hlen)) ?_
        rw [hpasses.of_failure]
        exact .failed cause
      | crash message => exact .crashes message _
    -- the byte behind the window is a line feed, or goes on with the line
    | @past bytes b rest hlen hsights =>
      rw [conclude]
      split
      · rename_i hb
        refine .keeps hsource rfl ?_
        rw [hsights, hb, List.append_nil, Sight.ofBytes_append c.carry, List.append_assoc]
      · refine .aborts hsource hreading ?_ ?_
        · rw [Reading.taken, List.length_append, hlen]
          exact Nat.le_refl _
        · rw [hsights]
          exact .noBoundary
    -- a stop right behind the window
    | @stoppedPast how bytes rest hlen hpasses =>
      cases how with
      | ok _ => exact .drops rfl
      | error cause =>
        refine .aborts hsource hreading (Nat.le_succ_of_le (Nat.le_of_eq hlen)) ?_
        rw [hpasses.of_failure]
        exact .failed cause
      | crash message => exact .crashes message _

section

variable {c c' : Chunker} {chunk : Chunk}

/-- As long as the source is kept, what a call takes of it is handed out or carried over. -/
theorem sights_of_next {s' : Source} (h : c.next = (.ok (some chunk), c'))
    (hkept : c'.source = some s') : ∃ s, c.source = some s
      ∧ Sight.ofBytes c.carry ++ s.sights
        = Sight.ofBytes (chunk.bytes ++ c'.carry) ++ s'.sights := by
  have hconduct := c.next_conduct
  generalize c.next = call at h hconduct
  cases hconduct with
  | @keeps s rest content d hsource hd hsights =>
    -- a chunk comes out where the source is kept or dropped, and here it was kept
    obtain ⟨-, rfl, rfl⟩ := emit_some h
    cases hd.symm.trans hkept
    exact ⟨s, hsource, hsights⟩
  | drops hd =>
    obtain ⟨-, -, rfl⟩ := emit_some h
    cases hd.symm.trans hkept
  | aborts | crashes => cases h

/-- A call that ends in an error drops the source and what it has taken of it. -/
theorem next_stops {e : ChunkError} (h : c.next = (.error e, c')) : c' = c.abort
    ∧ ∃ s r, c.source = some s ∧ c.reading = some r ∧ r.taken.length ≤ c.config.chunkSize + 1
      ∧ Stops c.config.chunkSize r.taken r.rest e s.sights := by
  have hconduct := c.next_conduct
  generalize c.next = call at h hconduct
  cases hconduct with
  | keeps | drops => exact absurd h emit_ne_error
  | aborts hsource hreading htaken hstops =>
    cases h
    exact ⟨rfl, _, _, hsource, hreading, htaken, hstops⟩
  | crashes => cases h

/-! ## Exhausted chunkers -/

/-- Nothing is left to read and nothing to hand out. -/
structure Exhausted (c : Chunker) : Prop where
  source : c.source = none
  carry : c.carry = []

/-- Whoever gives up has neither source nor bytes left. -/
theorem exhausted_abort (c : Chunker) : c.abort.Exhausted := ⟨rfl, rfl⟩

/-- A call has nothing to read then. -/
theorem Exhausted.reading_eq (h : c.Exhausted) : c.reading = none := by
  rw [reading, h.source, Option.map_none]

/-- There is no way back. -/
theorem Exhausted.next_eq (h : c.Exhausted) : c.next = (.ok none, c) := by
  rw [next_residual h.source, h.carry]
  show (_, _) = _
  rw [← h.carry]

/-- The end of the stream: what was prepared has no bytes, and so no boundary. -/
theorem exhausted_of_end (hc : c.Tidy) (h : c.next = (.ok none, c')) : c'.Exhausted := by
  obtain ⟨content, d, hemit, hprep⟩ := next_prepared hc h
  obtain ⟨rfl, rfl⟩ := emit_none hemit
  rcases hprep.boundary with hlast | ⟨hsource, hcarry⟩
  · cases hlast
  · exact ⟨hsource, hcarry⟩

/-- A call that neither hands out a chunk nor crashes is the last one that matters. -/
theorem exhausted_of_next (hc : c.Tidy) (hchunk : ∀ chunk, c.next.1 ≠ .ok (some chunk))
    (hcrash : ∀ message, c.next.1 ≠ .crash message) :
    (c.next.1 = .ok none ∨ ∃ e, c.next.1 = .error e) ∧ c.next.2.Exhausted := by
  rcases hnext : c.next with ⟨answer, c'⟩
  rw [hnext] at hchunk hcrash
  cases answer with
  | ok found =>
    cases found with
    | none => exact ⟨Or.inl rfl, exhausted_of_end hc hnext⟩
    | some chunk => exact absurd rfl (hchunk chunk)
  | error e =>
    obtain ⟨rfl, -⟩ := next_stops hnext
    exact ⟨Or.inr ⟨e, rfl⟩, exhausted_abort c⟩
  | crash message => exact absurd rfl (hcrash message)

end

/-! ## Runs -/

/-- From there on every call answers the end. -/
theorem Exhausted.calls_eq {c : Chunker} (h : c.Exhausted) (n : Nat) :
    (calls n c).map Prod.fst = List.replicate n (.ok none) := by
  induction n with
  | zero => rfl
  | succ n ih => rw [calls, h.next_eq, List.map_cons, ih, List.replicate_succ]

/-- The calls that emitted chunks are answered first, and those behind them like calls on the
chunker that is left. -/
theorem calls_of_emits {chunker c : Chunker} {chunks : List Chunk}
    (h : ChunkFeed.Emits chunker chunks c) (n : Nat) :
    (calls (chunks.length + n) chunker).map Prod.fst
      = chunks.map (fun chunk => .ok (some chunk)) ++ (calls n c).map Prod.fst := by
  induction h generalizing n with
  | start => rw [List.length_nil, Nat.zero_add, List.map_nil, List.nil_append]
  | @next chunks chunk d d' _ hnext ih =>
    have hcall : (calls (n + 1) d).map Prod.fst
        = .ok (some chunk) :: (calls n d').map Prod.fst := by
      rw [calls, show d.next = _ from hnext, List.map_cons]
    rw [List.length_append, List.length_singleton, Nat.add_assoc, Nat.add_comm 1 n, ih, hcall,
      List.map_append, List.map_singleton, List.append_assoc, List.singleton_append]

/-- Induction on the calls. -/
theorem sights_of_emits {chunker c : Chunker} {chunks : List Chunk} {source s : Source}
    (hstart : chunker.source = some source) (hcarry : chunker.carry = [])
    (h : ChunkFeed.Emits chunker chunks c) (hs : c.source = some s) :
    source.sights = Sight.ofBytes (chunks.flatMap (·.bytes) ++ c.carry) ++ s.sights := by
  induction h generalizing s with
  | start =>
    cases hstart.symm.trans hs
    rw [hcarry]
    rfl
  | @next chunks chunk d d' _ hnext ih =>
    obtain ⟨t, ht, hcall⟩ := sights_of_next hnext hs
    rw [ih ht, Sight.ofBytes_append, List.append_assoc, hcall, ← List.append_assoc,
      ← Sight.ofBytes_append, List.flatMap_append, List.flatMap_singleton, List.append_assoc]

/-- A run that ends in the error `e`, with `r` the last reading. -/
structure Loses (source : Source) (config : Chunk.Config) (chunks : List Chunk) (last : Chunker)
    (r : Reading) (e : ChunkError) : Prop where
  reading : last.reading = some r
  /-- Only whole lines were handed out. -/
  aligned : ∀ chunk ∈ chunks, chunk.bytes.getLast? = some newline
  /-- What was read and not handed out is lost: the carry and the last reading. -/
  data : source.data = chunks.flatMap (·.bytes) ++ (last.carry ++ r.taken) ++ r.rest.data
  lost_le : (last.carry ++ r.taken).length ≤ 2 * config.chunkSize
  stops : Stops config.chunkSize (chunks.flatMap (·.bytes) ++ (last.carry ++ r.taken)) r.rest e
    source.sights

/-- An error behind a row of chunks loses what was carried over and what the failed call had read,
and no more than that. -/
theorem Partitioned.loses {source : Source} {config : Chunk.Config} {chunker last c' : Chunker}
    {chunks : List Chunk} {e : ChunkError} (hpart : Partitioned source config chunks last)
    (hstart : chunker.source = some source) (hcarry : chunker.carry = [])
    (hrun : ChunkFeed.Emits chunker chunks last) (hend : last.next = (.error e, c')) :
    ∃ r, Loses source config chunks last r e := by
  obtain ⟨-, s, r, hs, hreading, htaken, hstops⟩ := next_stops hend
  rw [hpart.config_eq] at htaken hstops
  have hshort := hpart.tidy.carry_short
  rw [hpart.config_eq] at hshort
  have hall := hstops.append (chunks.flatMap (·.bytes) ++ last.carry)
  rw [← sights_of_emits hstart hcarry hrun hs, List.append_assoc] at hall
  refine ⟨r, hreading, ?_, hall.data, ?_, hall⟩
  · -- a chunk that ends in no `\n` would have been the last of the source
    rcases hpart.boundary with haligned | ⟨hgone, -⟩
    · exact haligned
    · rw [hs] at hgone
      cases hgone
  · rw [List.length_append]
    omega

/-- **A chunker stops once and for all, and an error costs two windows at most.**

Over a source without crashes there is a number of chunks, and then one more answer: the end of the
stream, or an error. From then on every call answers that the stream is at its end. It has no source
to read, whatever the source that was let go would still bring, and nothing is carried over.

If that answer is an error, then all chunks end with a `\n`, and the source was made of their bytes,
the bytes that are lost, and what is left of it. A failure that is reported is the one that stands
right behind the lost bytes. -/
theorem fused_with_bounded_loss {source : Source} {config : Chunk.Config} (hvalid : config.Valid)
    (hcalm : source.CrashFree) :
    (∀ c : Chunker, c.next = c.conclude c.reading)
      ∧ ∃ chunker chunks last answer gone, ofSource source config = .ok chunker
        ∧ ChunkFeed.Emits chunker chunks last ∧ last.next = (answer, gone)
        ∧ (answer = .ok none ∨ ∃ e r, answer = .error e ∧ Loses source config chunks last r e)
        ∧ gone.carry = [] ∧ gone.reading = none ∧ gone.next = (.ok none, gone)
        ∧ ∀ n, (calls (chunks.length + 1 + n) chunker).map Prod.fst
          = chunks.map (fun chunk => .ok (some chunk))
            ++ answer :: List.replicate n (.ok none) := by
  have hchunker := ofSource_valid source hvalid
  -- after finitely many chunks comes an answer that is none
  obtain ⟨chunks, last, hrun, hend⟩ := ChunkFeed.exists_end
    (⟨some source, config, hvalid, [], 0⟩ : Chunker)
  have hpart := partitioned_of_emits hchunker hrun
  obtain ⟨hcrash, -⟩ := next_not_crash (crashFree_of_emits (crashFree_ofSource hcalm hchunker) hrun)
  -- it is the end or an error, and nothing is left behind it
  obtain ⟨hanswer, hgone⟩ := exhausted_of_next hpart.tidy hend hcrash
  refine ⟨next_eq_conclude, _, chunks, last, last.next.1, last.next.2, hchunker, hrun, rfl, ?_,
    hgone.carry, hgone.reading_eq, hgone.next_eq, fun n => ?_⟩
  · refine hanswer.imp_right fun ⟨e, he⟩ => ?_
    obtain ⟨r, hloses⟩ := hpart.loses rfl rfl hrun (Prod.ext he rfl)
    exact ⟨e, r, he, hloses⟩
  · rw [Nat.add_assoc, Nat.add_comm 1 n, calls_of_emits hrun, calls, List.map_cons,
      hgone.calls_eq]

/-- The failure stands where a byte behind the second window is asked for, inside a line. More of
that line and another one are behind it. -/
def brokenLine : Source :=
  [.data [97, 10, 98], .data [99, 100, 101], .fail (.plain .timedOut "late"), .data [10, 102, 10]]

def brokenLineChunker : Chunker := ⟨some brokenLine, ⟨3, 7⟩, by decide, [], 0⟩

/-- The source fails within a line. The line before is handed out, the failure is reported once, and
from then on there is nothing. -/
theorem fused_with_bounded_loss_brokenLine :
    ofSource brokenLine ⟨3, 7⟩ = .ok brokenLineChunker
      ∧ ∀ n, (calls (2 + n) brokenLineChunker).map Prod.fst
        = .ok (some ⟨0, [97, 10], 7⟩) :: .error (.readFailed (.plain .timedOut "late"))
          :: List.replicate n (.ok none) := by
  have hvalid : Chunk.Config.Valid ⟨3, 7⟩ := by decide
  have hcalm : brokenLine.CrashFree := by
    intro message hmem
    simp [brokenLine] at hmem
  have hfirst : brokenLineChunker.next.1 = .ok (some ⟨0, [97, 10], 7⟩) := by decide +kernel
  have hsecond : brokenLineChunker.next.2.next.1
      = .error (.readFailed (.plain .timedOut "late")) := by decide +kernel
  have htwo : ∀ n, ∃ later, (calls (n + 2) brokenLineChunker).map Prod.fst
      = .ok (some ⟨0, [97, 10], 7⟩) :: .error (.readFailed (.plain .timedOut "late")) :: later :=
    fun n => ⟨_, by rw [calls, calls, List.map_cons, List.map_cons, hfirst, hsecond]⟩
  obtain ⟨-, chunker, chunks, last, answer, gone, hchunker, -, -, hanswer, -, -, -, hcalls⟩ :=
    fused_with_bounded_loss hvalid hcalm
  cases (show ofSource brokenLine ⟨3, 7⟩ = .ok brokenLineChunker from rfl).symm.trans hchunker
  refine ⟨rfl, fun n => ?_⟩
  -- the first call hands out a chunk, and the second does not
  rcases chunks with _ | ⟨chunk, _ | ⟨chunk', chunks⟩⟩
  · obtain ⟨later, htwo⟩ := htwo 0
    have hcalls := (hcalls 1).symm.trans htwo
    rcases hanswer with rfl | ⟨e, r, rfl, -⟩ <;> cases hcalls
  · obtain ⟨later, htwo⟩ := htwo n
    have hcalls := hcalls n
    rw [List.length_singleton, Nat.add_comm] at hcalls
    rw [Nat.add_comm, hcalls]
    cases hcalls.symm.trans htwo
    rfl
  · obtain ⟨later, htwo⟩ := htwo (chunks.length + 1)
    cases (hcalls 0).symm.trans htwo

end Chunker

end MessageFraming
