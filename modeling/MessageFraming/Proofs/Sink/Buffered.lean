import MessageFraming.Sink.Buffered
import MessageFraming.Proofs.Sink.Honest

/-!
# Buffered sinks lose nothing

Bytes that a buffered sink accepted are on the sink below, or they are in the buffer behind those
that are. Every operation keeps this, whichever write, flush or close of the sink below fails and
however often, because there are only three things that ever happen to bytes:

* they are handed on from the front of the buffer (`HandsOn`), where none is added or dropped;
* they are put behind the buffer;
* they are passed on to the sink below, while there is nothing in the buffer.

`flushBuffer_handsOn` and `write_writes` say so of the code. A buffered sink over an honest sink is
therefore honest itself, and what it holds is what the sink below holds and then the buffer. The
rest is how a close relates to its flush, and `loses_nothing` puts the two together for every run.
-/

namespace MessageFraming

/-- Whatever comes behind an answer, its calls come first. -/
theorem Reply.calls_prefix_bind {σ ε α β : Type} (r : Reply σ ε α) (next : α → σ → Reply σ ε β) :
    r.calls <+: (r.bind next).calls := by
  rcases r with ⟨value | e | message, state, calls⟩
  · exact List.prefix_append calls _
  · exact List.prefix_refl calls
  · exact List.prefix_refl calls

/-- No drop makes a call succeed that did not. -/
theorem Reply.ok_of_thenDrop {σ τ ε α : Type} {r : Reply σ ε α} {drop : σ → Disposal τ} {value : α}
    (h : (r.thenDrop drop).outcome = .ok value) : r.outcome = .ok value := by
  have hdrop : r.outcome.afterDrop (drop r.state).outcome = .ok value := h
  cases hd : (drop r.state).outcome with
  | ok _ => rwa [hd, Outcome.afterDrop_ok] at hdrop
  | error e => exact e.elim
  | crash message =>
    rw [hd] at hdrop
    cases hr : r.outcome <;> rw [hr] at hdrop <;> cases hdrop

namespace BufferedSink

open HonestSink

variable {σ : Type} [ByteSink σ]

/-! ## Emptying the buffer -/

/-- A flush of the buffer that succeeds leaves it empty. -/
theorem flushBuffer_buffer (b : BufferedSink σ) (hok : b.flushBuffer.outcome = .ok ()) :
    b.flushBuffer.state.buffer = [] := by
  fun_induction flushBuffer b with
  | case1 b hempty => exact hempty
  | case3 b hne n sink calls hwrite ih => exact ih hok
  | case4 b hne e sink calls hwrite he ih => exact ih hok
  | case2 | case5 | case6 => cases hok

/-- A buffer that is not empty is offered as it is, before anything else happens. -/
theorem calls_prefix_flushBuffer {b : BufferedSink σ} (hne : b.buffer ≠ [])
    {outcome : Outcome IoError Nat} {sink : σ} {calls : List Call}
    (h : ByteSink.write b.buffer b.sink = ⟨outcome, sink, calls⟩) :
    calls <+: b.flushBuffer.calls := by
  rw [flushBuffer, dif_neg hne]
  split <;> rename_i hwrite <;> cases h.symm.trans hwrite
  · exact List.prefix_refl _
  · exact List.prefix_append _ _
  · split
    · exact List.prefix_append _ _
    · exact List.prefix_refl _
  · exact List.prefix_refl _

/-- A flush ends with a buffer that could not be emptied, or passes the empty one and flushes the
sink below. -/
theorem flush_cases (b : BufferedSink σ) :
    b.flushBuffer.outcome ≠ .ok () ∧ b.flush = b.flushBuffer
      ∨ ∃ emptied calls, b.flushBuffer = ⟨.ok (), emptied, calls⟩ ∧ emptied.buffer = []
        ∧ b.flush = ((ByteSink.flush emptied.sink).mapState fun sink =>
          { emptied with sink }).after calls := by
  have hempty := b.flushBuffer_buffer
  unfold flush
  rcases hbuffer : b.flushBuffer with ⟨value | e | message, emptied, calls⟩
  · rw [hbuffer] at hempty
    exact Or.inr ⟨emptied, calls, rfl, hempty rfl, rfl⟩
  · exact Or.inl ⟨nofun, rfl⟩
  · exact Or.inl ⟨nofun, rfl⟩

section

variable [Closable σ]

/-- A flush that fails is all there is of the close. -/
theorem close_of_failure {b : BufferedSink σ} (h : b.flush.outcome ≠ .ok ()) :
    b.close = b.flush := by
  unfold close
  rcases hflush : b.flush with ⟨value | e | message, flushed, calls⟩
  · rw [hflush] at h
    exact absurd rfl h
  · rfl
  · rfl

end

/-- The sink below is given back where the buffer could be emptied, and only there. -/
theorem release_cases [Disposable σ] (b : BufferedSink σ) :
    b.release.outcome ≠ .ok ()
      ∨ ∃ emptied calls, b.flushBuffer = ⟨.ok (), emptied, calls⟩ ∧ emptied.buffer = []
        ∧ b.release = ⟨.ok (), emptied.sink, calls⟩ := by
  have hempty := b.flushBuffer_buffer
  unfold release
  rcases hbuffer : b.flushBuffer with ⟨value | e | message, emptied, calls⟩
  · rw [hbuffer] at hempty
    exact Or.inr ⟨emptied, calls, rfl, hempty rfl, rfl⟩
  · exact Or.inl fun hok => nomatch Reply.ok_of_thenDrop hok
  · exact Or.inl fun hok => nomatch Reply.ok_of_thenDrop hok

variable [Closable σ] [HonestClosable σ] {b b' b'' : BufferedSink σ}

/-- `b` becomes `b'` by handing on some of its buffer, in order, and closes nothing meanwhile. -/
structure HandsOn (b b' : BufferedSink σ) (calls : List Call) : Prop where
  held : data b'.sink ++ b'.buffer = data b.sink ++ b.buffer
  grows : data b.sink <+: data b'.sink
  closesSink : b'.closesSink = b.closesSink
  quiet : ∀ call ∈ calls, ¬ call.isClose

/-- Doing nothing hands nothing on. -/
theorem HandsOn.refl (b : BufferedSink σ) : HandsOn b b [] :=
  ⟨rfl, List.prefix_refl _, rfl, fun _ hmem => by cases hmem⟩

/-- One after the other. -/
theorem HandsOn.trans {calls calls' : List Call} (h : HandsOn b b' calls)
    (h' : HandsOn b' b'' calls') : HandsOn b b'' (calls ++ calls') where
  held := h'.held.trans h.held
  grows := h.grows.trans h'.grows
  closesSink := h'.closesSink.trans h.closesSink
  quiet call hmem := (List.mem_append.mp hmem).elim (h.quiet call) (h'.quiet call)

/-- The sink below is offered the buffer, and what it takes is gone from there. -/
theorem handsOn_of_write {outcome : Outcome IoError Nat} {sink : σ} {calls : List Call}
    (h : ByteSink.write b.buffer b.sink = ⟨outcome, sink, calls⟩) (crashed : Bool) :
    HandsOn b { b with sink, buffer := b.buffer.drop outcome.taken, crashed } calls := by
  have hsink := data_of_write h
  have hcalls := HonestClosable.write_calls b.buffer b.sink
  rw [h] at hcalls
  refine ⟨?_, ?_, rfl, hcalls⟩
  · show data sink ++ b.buffer.drop outcome.taken = _
    rw [hsink, List.append_assoc, List.take_append_drop]
  · show data b.sink <+: data sink
    rw [hsink]
    exact List.prefix_append _ _

/-- **Emptying the buffer hands it on**, as far as it gets. Recursion of `flushBuffer`. -/
theorem flushBuffer_handsOn (b : BufferedSink σ) :
    HandsOn b b.flushBuffer.state b.flushBuffer.calls := by
  fun_induction flushBuffer b with
  | case1 b hempty => exact .refl b
  | case2 b hne sink calls hwrite => exact handsOn_of_write hwrite false
  | case3 b hne n sink calls hwrite ih => exact (handsOn_of_write hwrite false).trans ih
  | case4 b hne e sink calls hwrite he ih => exact (handsOn_of_write hwrite false).trans ih
  | case5 b hne e sink calls hwrite he => exact handsOn_of_write hwrite false
  | case6 b hne message sink calls hwrite => exact handsOn_of_write hwrite true

/-! ## Writing -/

/-- All that a write can come to, behind what it hands on first. -/
inductive Writes (b : BufferedSink σ) (bytes : Bytes) :
    Reply (BufferedSink σ) IoError Nat → Prop where
  /-- The buffer could not be emptied, and nothing was accepted. -/
  | refused {b' : BufferedSink σ} {outcome : Outcome IoError Nat} {calls : List Call}
      (h : HandsOn b b' calls) (hnone : outcome.taken = 0) : Writes b bytes ⟨outcome, b', calls⟩
  | buffered {b' : BufferedSink σ} {calls : List Call} (h : HandsOn b b' calls) :
      Writes b bytes ⟨.ok bytes.length, { b' with buffer := b'.buffer ++ bytes }, calls⟩
  /-- The bytes went past an empty buffer. -/
  | passedOn {b' : BufferedSink σ} {outcome : Outcome IoError Nat} {sink : σ} {crashed : Bool}
      {calls calls' : List Call} (h : HandsOn b b' calls) (hempty : b'.buffer = [] ∨ bytes = [])
      (hwrite : ByteSink.write bytes b'.sink = ⟨outcome, sink, calls'⟩) :
      Writes b bytes ⟨outcome, { b' with sink, crashed }, calls ++ calls'⟩

/-- Bytes may go past the buffer if it is empty, or if there are none of them. -/
theorem passOn_writes {bytes : Bytes} {calls : List Call} (h : HandsOn b b' calls)
    (hempty : b'.buffer = [] ∨ bytes = []) : Writes b bytes ((b'.passOn bytes).after calls) := by
  unfold passOn
  split
  · rename_i hwrite
    exact .passedOn h hempty hwrite
  · rename_i hwrite
    exact .passedOn h hempty hwrite

/-- Bytes that fit go into the buffer. Too many for any buffer go past it, which is empty then. -/
theorem accept_writes {bytes : Bytes} {calls : List Call} (h : HandsOn b b' calls)
    (hroom : b'.buffer = [] ∨ bytes.length ≤ b'.spare) :
    Writes b bytes ((b'.accept bytes).after calls) := by
  unfold accept
  split
  · have hbuffered : Writes b bytes _ := .buffered h
    rwa [← List.append_nil calls] at hbuffered
  · -- as many bytes as the buffer holds fit beside nothing but an empty buffer
    rename_i hlong
    refine passOn_writes h (hroom.elim Or.inl fun hfits => ?_)
    unfold spare at hfits
    by_cases hnone : bytes = []
    · exact Or.inr hnone
    · have hpos := List.length_pos_iff.mpr hnone
      exact Or.inl (List.eq_nil_of_length_eq_zero (by omega))

/-- **What a write does.** It flushes the buffer first where the bytes do not fit beside it, and
bytes never overtake others. -/
theorem write_writes (bytes : Bytes) (b : BufferedSink σ) : Writes b bytes (b.write bytes) := by
  unfold write
  split
  · exact .buffered (.refl b)
  · split
    · -- the bytes are looked at again once the buffer is empty, and not before
      have hhands := b.flushBuffer_handsOn
      have hempty := b.flushBuffer_buffer
      rcases hflush : b.flushBuffer with ⟨value | e | message, b', calls⟩
      · rw [hflush] at hhands hempty
        exact accept_writes hhands (Or.inl (hempty rfl))
      · rw [hflush] at hhands
        exact .refused hhands rfl
      · rw [hflush] at hhands
        exact .refused hhands rfl
    · rename_i hroom
      exact accept_writes (.refl b) (Or.inr (Nat.not_lt.mp hroom))

section

variable {bytes : Bytes} {reply : Reply (BufferedSink σ) IoError Nat}

/-- On the sink and in the buffer there is what was there before, and what the write has taken. -/
theorem Writes.held (h : Writes b bytes reply) : data reply.state.sink ++ reply.state.buffer
    = data b.sink ++ b.buffer ++ bytes.take reply.outcome.taken := by
  cases h with
  | refused h hnone => rw [hnone, List.take_zero, List.append_nil, ← h.held]
  | @buffered b' calls h =>
    show data b'.sink ++ (b'.buffer ++ bytes) = _ ++ bytes.take bytes.length
    rw [List.take_length, ← List.append_assoc, h.held]
  | @passedOn b' outcome sink crashed calls calls' h hempty hwrite =>
    show data sink ++ b'.buffer = _
    rw [data_of_write hwrite, ← h.held]
    rcases hempty with hbuffer | hbytes
    · rw [hbuffer, List.append_nil, List.append_nil]
    · rw [hbytes, List.take_nil, List.append_nil, List.append_nil]

/-- A write closes nothing. -/
theorem Writes.quiet (h : Writes b bytes reply) : ∀ call ∈ reply.calls, ¬ call.isClose := by
  cases h with
  | refused h _ => exact h.quiet
  | buffered h => exact h.quiet
  | @passedOn b' outcome sink crashed calls calls' h hempty hwrite =>
    have hcalls := HonestClosable.write_calls bytes b'.sink
    rw [hwrite] at hcalls
    exact fun call hmem => (List.mem_append.mp hmem).elim (h.quiet call) (hcalls call)

/-- Nor does it change what a close will do. -/
theorem Writes.closesSink (h : Writes b bytes reply) : reply.state.closesSink = b.closesSink := by
  cases h with
  | refused h _ => exact h.closesSink
  | buffered h => exact h.closesSink
  | passedOn h _ _ => exact h.closesSink

end

/-! ## Flushing and closing -/

/-- A flush hands on what is in the buffer, and flushes the sink if it could. -/
theorem flush_handsOn (b : BufferedSink σ) : HandsOn b b.flush.state b.flush.calls := by
  have hhands := b.flushBuffer_handsOn
  rcases b.flush_cases with ⟨-, hflush⟩ | ⟨emptied, calls, hbuffer, -, hflush⟩
  · rwa [hflush]
  · rw [hbuffer] at hhands
    rw [hflush]
    have hdata := flush_data emptied.sink
    refine hhands.trans ⟨?_, ?_, rfl, HonestClosable.flush_calls emptied.sink⟩
    · exact congrArg (· ++ emptied.buffer) hdata
    · exact ⟨[], (List.append_nil _).trans hdata.symm⟩

/-- Behind a flush that went well, all is on the sink below. -/
theorem data_of_flush {flushed : BufferedSink σ} {calls : List Call}
    (h : b.flush = ⟨.ok (), flushed, calls⟩) : data flushed.sink = data b.sink ++ b.buffer := by
  have hhands := b.flush_handsOn
  have hnone : flushed.buffer = [] := by
    rcases b.flush_cases with ⟨hfail, hflush⟩ | ⟨emptied, calls', -, hempty, hflush⟩
    · rw [← hflush, h] at hfail
      exact absurd rfl hfail
    · have hstate := congrArg (fun reply => reply.state.buffer) (h.symm.trans hflush)
      exact hstate.trans hempty
  rw [h] at hhands
  rw [← hhands.held, hnone, List.append_nil]

/-- Behind a flush that went well, the sink below is closed where it was set up to. -/
theorem close_of_flush {flushed : BufferedSink σ} {calls : List Call}
    (h : b.flush = ⟨.ok (), flushed, calls⟩) : b.close =
      if b.closesSink then
        ((Closable.close flushed.sink).mapState fun sink => { flushed with sink }).after calls
      else ⟨.ok (), flushed, calls⟩ := by
  have hhands := b.flush_handsOn
  rw [h] at hhands
  unfold close
  rw [h, Reply.bind_ok, hhands.closesSink]
  split
  · rfl
  · exact congrArg (Reply.mk (.ok ()) flushed) (List.append_nil calls)

/-- A close comes to its flush, or to a flush that went well and a close of the sink below. -/
theorem close_cases (b : BufferedSink σ) :
    b.close = b.flush
      ∨ b.closesSink ∧ ∃ flushed calls, b.flush = ⟨.ok (), flushed, calls⟩ ∧ b.close
        = ((Closable.close flushed.sink).mapState
            fun sink => { flushed with sink }).after calls := by
  by_cases hok : b.flush.outcome = .ok ()
  · rcases hflush : b.flush with ⟨outcome, flushed, calls⟩
    rw [hflush] at hok
    obtain rfl : outcome = .ok () := hok
    have hclose := close_of_flush hflush
    -- only a flush that succeeded lets the close through
    by_cases hset : b.closesSink
    · rw [if_pos hset] at hclose
      exact Or.inr ⟨hset, flushed, calls, rfl, hclose⟩
    · rw [if_neg hset] at hclose
      exact Or.inl hclose
  · exact Or.inl (close_of_failure hok)

/-- A close hands on just what its flush does. -/
theorem close_hands_on (b : BufferedSink σ) :
    data b.close.state.sink ++ b.close.state.buffer = data b.sink ++ b.buffer
      ∧ data b.sink <+: data b.close.state.sink ∧ b.close.state.closesSink = b.closesSink := by
  have hhands := b.flush_handsOn
  rcases b.close_cases with hclose | ⟨-, flushed, calls, hflush, hclose⟩
  · rw [hclose]
    exact ⟨hhands.held, hhands.grows, hhands.closesSink⟩
  · -- the close of the sink writes nothing
    have hdata := HonestClosable.close_data flushed.sink
    rw [hflush] at hhands
    rw [hclose]
    refine ⟨(congrArg (· ++ flushed.buffer) hdata).trans hhands.held, ?_, hhands.closesSink⟩
    show data b.sink <+: data (Closable.close flushed.sink).state
    rw [hdata]
    exact hhands.grows

/-- **A buffered sink is as honest as the sink below.** -/
instance : HonestClosable (BufferedSink σ) where
  data b := data b.sink ++ b.buffer
  write_data bytes b := (b.write_writes bytes).held
  flush_data b := b.flush_handsOn.held
  close_data b := b.close_hands_on.1
  write_calls bytes b := (b.write_writes bytes).quiet
  flush_calls b := b.flush_handsOn.quiet

/-! ## Runs -/

/-- No operation changes what a close comes to. -/
theorem closesSink_after (operations : List Operation) (b : BufferedSink σ) :
    (Operation.after operations b).closesSink = b.closesSink := by
  induction operations generalizing b with
  | nil => rfl
  | cons operation operations ih =>
    rw [Operation.after, ih]
    cases operation with
    | write bytes => exact (b.write_writes bytes).closesSink
    | flush => exact b.flush_handsOn.closesSink
    | close => exact b.close_hands_on.2.2

/-- What a buffered sink warrants at any moment, when it has accepted these bytes so far. -/
structure Warrants (closesSink : Bool) (accepted : Bytes) (b : BufferedSink σ) : Prop where
  /-- All of them are there, once and in order: on the sink below and then in the buffer. -/
  accounted : data b.sink ++ b.buffer = accepted
  /-- The sink below is closed by a close only, if this was asked for, and behind its flush. -/
  closes_late : ∀ operation : Operation, ∀ call ∈ (operation.perform b).calls, call.isClose →
    operation = .close ∧ closesSink ∧ b.flush.outcome = .ok ()
  /-- A close whose flush fails answers like the flush and has done no more. -/
  failed_flush : b.flush.outcome ≠ .ok () →
    b.close = b.flush ∧ ∀ call ∈ b.close.calls, ¬ call.isClose
  /-- A close whose flush goes well has brought everything down, and then closes what it should. -/
  flushed : ∀ flushed calls, b.flush = ⟨.ok (), flushed, calls⟩ →
    data flushed.sink = accepted ∧ b.close =
      if closesSink then
        ((Closable.close flushed.sink).mapState fun sink => { flushed with sink }).after calls
      else ⟨.ok (), flushed, calls⟩
  /-- A close goes on at the first byte that the sink below does not have. -/
  resumes : accepted ≠ data b.sink →
    (ByteSink.write (accepted.drop (data b.sink).length) b.sink).calls <+: b.close.calls
  /-- However far it gets, the sink below has a front of what was accepted, and no less
  than before. -/
  delivers : data b.sink <+: data b.close.state.sink ∧ data b.close.state.sink <+: accepted
  /-- Whoever is given the sink below back finds everything on it. -/
  released : ∀ [Disposable σ], b.release.outcome = .ok () →
    data b.release.state = accepted ∧ ∀ call ∈ b.release.calls, ¬ call.isClose
  /-- Going away, a buffered sink does not close the one below. -/
  dropped : ∀ call ∈ b.drop.calls, ¬ call.isClose

/-- What a buffered sink can be relied on for, from any state. -/
theorem warrants (b : BufferedSink σ) : Warrants b.closesSink (data b.sink ++ b.buffer) b where
  accounted := rfl
  closes_late operation call hmem hclose := by
    -- no other operation closes anything, and a close only does behind its flush
    obtain rfl := Operation.eq_close_of_isClose hmem hclose
    have hquiet := b.flush_handsOn.quiet
    have hcall : call ∈ b.close.calls := hmem
    rcases b.close_cases with heq | ⟨hset, flushed, calls, hflush, -⟩
    · rw [heq] at hcall
      exact absurd hclose (hquiet call hcall)
    · rw [hflush]
      exact ⟨rfl, hset, rfl⟩
  failed_flush hfail := by
    rw [close_of_failure hfail]
    exact ⟨rfl, b.flush_handsOn.quiet⟩
  flushed _ _ hflush := ⟨data_of_flush hflush, close_of_flush hflush⟩
  resumes hne := by
    -- the first call offers what is still in the buffer
    have hbuffer : b.buffer ≠ [] := fun hempty => hne (by rw [hempty, List.append_nil])
    rw [List.drop_left]
    exact (calls_prefix_flushBuffer hbuffer rfl).trans
      ((Reply.calls_prefix_bind _ _).trans (Reply.calls_prefix_bind _ _))
  delivers := by
    obtain ⟨hheld, hgrows, -⟩ := b.close_hands_on
    exact ⟨hgrows, hheld ▸ List.prefix_append _ _⟩
  released hok := by
    -- whoever gets the sink back has flushed the buffer
    have hhands := b.flushBuffer_handsOn
    rcases b.release_cases with hfail | ⟨emptied, calls, hbuffer, hempty, hrelease⟩
    · exact absurd hok hfail
    · rw [hbuffer] at hhands
      rw [hrelease]
      refine ⟨?_, hhands.quiet⟩
      rw [← hhands.held, hempty, List.append_nil]
  dropped := by
    have hquiet := b.flushBuffer_handsOn.quiet
    unfold drop
    split
    · intro call hmem
      cases hmem
    · exact hquiet

/-- **A buffered sink loses nothing, and never closes the sink below over bytes that are not
there.** Whatever is written, flushed and closed, and whatever the sink below takes or refuses
meanwhile: what was accepted is on that sink or waits in the buffer, in order. A close reaches the
sink below only behind everything, and one that fails can be made again, and goes on where it
stopped. -/
theorem loses_nothing (sink : σ) (closesSink : Bool) (capacity : Option Nat)
    (operations : List Operation) :
    Warrants closesSink
      (data sink ++ Operation.acceptedBy operations (ofSink sink closesSink capacity))
      (Operation.after operations (ofSink sink closesSink capacity)) := by
  have hwarrants := warrants (Operation.after operations (ofSink sink closesSink capacity))
  -- as a sink of its own it holds what it accepted, and at first its buffer is empty
  have hdata := Operation.data_after operations (ofSink sink closesSink capacity)
  have hheld : data (Operation.after operations (ofSink sink closesSink capacity)).sink
      ++ (Operation.after operations (ofSink sink closesSink capacity)).buffer
      = data sink ++ [] ++ Operation.acceptedBy operations (ofSink sink closesSink capacity) :=
    hdata
  rwa [closesSink_after, hheld, List.append_nil] at hwarrants

/-- Takes two bytes of the first buffer and fails, takes two of a write past the buffer, takes
nothing of the next buffer, and fails its first flush. -/
def roughSink : ScriptedSink where
  name := "disk"
  writes := [.accept (some 2), .fail (.plain .storageFull "full"), .accept none, .accept (some 2),
    .accept (some 0), .fail (.plain .interrupted "signal"), .accept (some 1)]
  flushes := [.fail (.plain .timedOut "late")]
  closes := []
  data := []
  closed := false

/-- The second write is refused and made again; the close behind the third one fails. -/
def roughRun : List Operation :=
  [.write [1, 2, 3], .write [4, 5, 6, 7], .write [4, 5, 6, 7], .write [6, 7], .close]

/-- What is left after this run. -/
def roughBuffer : BufferedSink ScriptedSink :=
  Operation.after roughRun (ofSink roughSink true (some 4))

theorem loses_nothing_roughSink :
    Warrants true [1, 2, 3, 4, 5, 6, 7] roughBuffer
      ∧ roughBuffer.sink.data = [1, 2, 3, 4, 5]
      ∧ roughBuffer.close.outcome = .error (.plain .timedOut "late")
      ∧ (∀ call ∈ roughBuffer.close.calls, ¬ call.isClose)
      ∧ roughBuffer.close.state.sink.data = [1, 2, 3, 4, 5, 6, 7]
      ∧ roughBuffer.close.state.close.calls = [.flush "disk" .done, .close "disk" .done] := by
  have hwarrants : Warrants true _ roughBuffer := loses_nothing roughSink true (some 4) roughRun
  have haccepted : data roughSink
      ++ Operation.acceptedBy roughRun (ofSink roughSink true (some 4))
        = [1, 2, 3, 4, 5, 6, 7] := by
    decide +kernel
  have hfail : roughBuffer.flush.outcome = .error (.plain .timedOut "late") := by decide +kernel
  rw [haccepted] at hwarrants
  -- the flush of the first close fails, so the sink is not closed yet
  obtain ⟨hclose, hquiet⟩ := hwarrants.failed_flush (by rw [hfail]; exact nofun)
  refine ⟨hwarrants, by decide +kernel, ?_, hquiet, by decide +kernel, by decide +kernel⟩
  exact (congrArg Reply.outcome hclose).trans hfail

end BufferedSink

end MessageFraming
