import MessageFraming.SharedWriter
import MessageFraming.SharedWriter.Producers
import MessageFraming.Proofs.Frame.Writing
import Mathlib.Logic.Relation

/-!
# Calls as steps

A call of a shared writer, if nothing comes in between, is a row of steps of one producer: it takes
the lock, the sink takes the head and the payload in the pieces in which this sink takes them, and
it lets go of the lock. So interleavings of such steps are what there is to say of producers that
call the writer at the same time.

* `Producers.steps_writeAll`: a part that is written in full, write by write of the sink.
* `Producers.steps_writeFrame`: the writing of one frame through the lock.
* `Producers.steps_writeFrames`: the writing of all payloads of a producer. So all producers can
  finish (`Producers.exists_done`).
-/

namespace MessageFraming

namespace Producers

variable {f : WireFormat} {lists : List (List Bytes)} {s : Producers f}

theorem set_wire_set (i : Nat) (p q : Producer) (wire wire' : Bytes) (s : Producers f) :
    ({ ({ s.set i p with wire := wire } : Producers f).set i q with wire := wire' } : Producers f)
      = { s.set i q with wire := wire' } := by
  unfold set
  rw [List.set_set]

/-- The producer that was replaced is the new one. -/
theorem set_self {i : Nat} {p q : Producer} (hp : s.producers[i]? = some p) :
    (s.set i q).producers[i]? = some q :=
  List.getElem?_set_self (List.getElem?_eq_some_iff.mp hp).1

theorem set_eq_self {i : Nat} {p : Producer} (hp : s.producers[i]? = some p) : s.set i p = s := by
  obtain ⟨hi, rfl⟩ := List.getElem?_eq_some_iff.mp hp
  unfold set
  rw [List.set_getElem_self]

section

variable {σ : Type} [ByteSink σ] [AcceptingSink σ]

open AcceptingSink

/-- `w` is the writer of the producers, and its sink goes on taking bytes. -/
structure WrittenBy (s : Producers f) (w : SharedWriter (FormatWriter f σ)) : Prop where
  sound : w.poisoned = false
  accepts : Accepts w.writer.sink
  state : s.state = w.writer.state
  wire : s.wire = data w.writer.sink

/-! ## Rows of steps -/

/-- One write of the sink, which takes no more than it is offered. -/
theorem Step.takes {i n size total : Nat} {payloads parts : List Bytes} {bytes : Bytes}
    (hp : s.producers[i]? = some ⟨payloads, some ⟨bytes :: parts, size⟩, total⟩)
    (hne : bytes ≠ []) :
    Step s
      { s.set i ⟨payloads, some ⟨bytes.drop (n + 1) :: parts, size⟩, total⟩ with
        wire := s.wire ++ bytes.take (n + 1) } := by
  rcases Nat.le_total (n + 1) bytes.length with hle | hge
  · exact .write hp (Nat.succ_pos n) hle
  · -- it is offered less, and takes it all
    rw [List.drop_of_length_le hge, ← List.drop_length (l := bytes), List.take_of_length_le hge]
    have hstep := Step.write hp (List.length_pos_iff.mpr hne) (Nat.le_refl _)
    rwa [List.take_length] at hstep

/-- A part is written in full. Each write of the sink that takes something is a step, and an
interrupted one is none. -/
theorem steps_writeAll {s₀ : Producers f} {i size total : Nat} {payloads parts : List Bytes}
    {bytes : Bytes} {sink last : σ} (htakes : Takes bytes sink last)
    (hsteps : Relation.ReflTransGen Step s₀ s)
    (hp : s.producers[i]? = some ⟨payloads, some ⟨bytes :: parts, size⟩, total⟩)
    (hdata : s.wire = data sink) :
    Relation.ReflTransGen Step s₀
      { s.set i ⟨payloads, some ⟨parts, size⟩, total⟩ with wire := data last } := by
  induction htakes generalizing s with
  | done sink =>
    rw [← hdata]
    exact hsteps.tail (.advance hp)
  -- one write of the sink, and then the rest of the part
  | @taken bytes sink next last n hne hmore _ ih =>
    rw [← hdata] at hmore
    have hrest := ih (hsteps.tail (.takes (n := n) hp hne)) (set_self hp) hmore.symm
    rwa [set_wire_set] at hrest
  -- the sink has taken nothing, so there is no step
  | interrupted hsame _ ih => exact ih hsteps hp (hdata.trans hsame.symm)

/-- **A call of the shared writer is a row of steps.** -/
theorem steps_writeFrame {i total : Nat} {payload : Bytes} {payloads : List Bytes}
    {w : SharedWriter (FormatWriter f σ)} (via : Access)
    (hp : s.producers[i]? = some ⟨payload :: payloads, none, total⟩) (hfree : s.holder = none)
    (hw : s.WrittenBy w) :
    ∃ count next calls s', w.writeFrame via payload = ⟨.ok count, next, calls⟩
      ∧ s'.producers = s.producers.set i ⟨payloads, none, total + count⟩ ∧ s'.holder = none
      ∧ s'.WrittenBy next ∧ Relation.ReflTransGen Step s s' := by
  obtain ⟨sink, calls, hframe, hwire, haccepts⟩ :=
    FormatWriter.writeFrame_accepts payload hw.accepts
  rw [← hw.state] at hframe hwire
  refine ⟨(f.frame s.state payload).length, ⟨⟨sink, f.next s.state⟩, false⟩, calls,
    ⟨s.producers.set i ⟨payloads, none, total + (f.frame s.state payload).length⟩, none,
      f.next s.state, data sink⟩, ?_, rfl, rfl, ⟨rfl, haccepts, rfl, rfl⟩, ?_⟩
  · have hcall : FrameWriter.writeFrame payload w.writer
        = ⟨.ok (f.frame s.state payload).length, ⟨sink, f.next s.state⟩, calls⟩ := hframe
    unfold SharedWriter.writeFrame SharedWriter.access
    rw [hw.sound, if_neg Bool.false_ne_true, hcall]
  · -- the lock is taken, the head and the payload are written, and the lock is let go
    obtain ⟨middle, -, -, hhead, hnext⟩ := writeAll_takes (f.head s.state payload) hw.accepts
    obtain ⟨last, -, -, hpayload, -⟩ := writeAll_takes payload hnext
    have htaken := Relation.ReflTransGen.single (Step.take hfree hp)
    have hheaded := steps_writeAll hhead htaken (set_self hp) hw.wire
    have hwritten := steps_writeAll hpayload hheaded (set_self (set_self hp)) rfl
    have hdone := hwritten.tail (.release (set_self (set_self (set_self hp))))
    rw [hpayload.data_eq, hhead.data_eq, List.append_assoc] at hdone
    rw [hwire]
    simpa only [set, List.set_set, WireFormat.frame] using hdone

/-- All payloads of a producer are written in such calls. Induction on them. -/
theorem steps_writeFrames {i total : Nat} {payloads : List Bytes}
    {w : SharedWriter (FormatWriter f σ)} (via : Access)
    (hp : s.producers[i]? = some ⟨payloads, none, total⟩) (hfree : s.holder = none)
    (hw : s.WrittenBy w) :
    ∃ count next calls s', w.writeFrames via payloads = ⟨.ok count, next, calls⟩
      ∧ s'.producers = s.producers.set i ⟨[], none, total + count⟩ ∧ s'.holder = none
      ∧ s'.WrittenBy next ∧ Relation.ReflTransGen Step s s' := by
  induction payloads generalizing s total w with
  | nil => exact ⟨0, w, [], s, rfl, (congrArg producers (set_eq_self hp)).symm, hfree, hw, .refl⟩
  | cons payload payloads ih =>
    obtain ⟨count, next, calls, s', hcall, hproducers, hfree', hw', hsteps⟩ :=
      steps_writeFrame via hp hfree hw
    -- behind the first frame the producer has the others left
    have hp' : s'.producers[i]? = some ⟨payloads, none, total + count⟩ := by
      rw [hproducers]
      exact set_self hp
    obtain ⟨counts, last, calls', s'', hcalls, hproducers', hfree'', hw'', hsteps'⟩ :=
      ih hp' hfree' hw'
    refine ⟨count + counts, last, calls ++ calls', s'', ?_, ?_, hfree'', hw'',
      hsteps.trans hsteps'⟩
    · show (w.writeFrame via payload).bind _ = _
      rw [hcall, Reply.bind_ok]
      show Reply.after calls ((next.writeFrames via payloads).map _) = _
      rw [hcalls]
      rfl
    · rw [hproducers', hproducers, List.set_set, Nat.add_assoc]

/-! ## All producers can finish -/

/-- If the producers in front have finished, the others can do so one after the other. Induction on
the others. -/
theorem exists_done_from (front : List Producer) (back : List (List Bytes))
    {w : SharedWriter (FormatWriter f σ)} (hfront : front.all Producer.isDone)
    (hproducers : s.producers = front ++ back.map Producer.ofPayloads) (hfree : s.holder = none)
    (hw : s.WrittenBy w) : ∃ s', Relation.ReflTransGen Step s s' ∧ s'.isDone := by
  induction back generalizing s front w with
  | nil =>
    rw [List.map_nil, List.append_nil] at hproducers
    refine ⟨s, .refl, ?_⟩
    rw [isDone, hproducers]
    exact hfront
  | cons payloads back ih =>
    -- the first producer behind those that have finished writes all it has
    have hp : s.producers[front.length]? = some ⟨payloads, none, 0⟩ := by
      rw [hproducers, List.getElem?_append_right (Nat.le_refl _), Nat.sub_self]
      rfl
    obtain ⟨count, next, calls, s', -, hnext, hfree', hw', hsteps⟩ :=
      steps_writeFrames .shared hp hfree hw
    have hfront' : (front ++ [(⟨[], none, 0 + count⟩ : Producer)]).all Producer.isDone := by
      rw [List.all_append, hfront]
      rfl
    have hproducers' : s'.producers
        = front ++ [⟨[], none, 0 + count⟩] ++ back.map Producer.ofPayloads := by
      rw [hnext, hproducers, List.set_append_right _ _ (Nat.le_refl _), Nat.sub_self,
        List.append_assoc]
      rfl
    obtain ⟨s'', hsteps', hdone⟩ := ih _ hfront' hproducers' hfree' hw'
    exact ⟨s'', hsteps.trans hsteps', hdone⟩

end

theorem Reachable.trans {s' : Producers f} (h : Reachable f lists s)
    (hsteps : Relation.ReflTransGen Step s s') : Reachable f lists s' := by
  induction hsteps with
  | refl => exact h
  | tail _ hstep ih => exact ih.step hstep

/-- Nobody has begun, and the writer has written nothing to memory. -/
theorem writtenBy_start (f : WireFormat) (lists : List (List Bytes)) :
    (start f lists).WrittenBy (SharedWriter.ofWriter (.ofSink MemorySink.empty)) :=
  ⟨rfl, trivial, rfl, rfl⟩

/-- Whatever there is to write, all producers can finish. -/
theorem exists_done (f : WireFormat) (lists : List (List Bytes)) :
    ∃ s, Reachable f lists s ∧ s.isDone := by
  obtain ⟨s, hsteps, hdone⟩ := exists_done_from [] lists rfl rfl rfl (writtenBy_start f lists)
  exact ⟨s, Reachable.start.trans hsteps, hdone⟩

end Producers

end MessageFraming
