import Mathlib.Algebra.Ring.Nat
import MessageFraming.Frame.FormatWriter
import MessageFraming.Sink.Memory
import MessageFraming.Sink.Scripted

/-!
# Writing without failure

A sink may take a write in any number of pieces and interrupt it in between. As long as it goes on
taking bytes, none of this shows in what a writer leaves on it.

* `AcceptingSink`: sinks of which can be told what they hold and whether they go on taking bytes.
* `Takes`: how such a sink takes bytes that are all to be written. Writing them succeeds
  (`writeAll_takes`), and puts them behind what the sink holds (`Takes.data_eq`).
* `FormatWriter.writeFrames_accepts`: so a writer leaves the encoding of its payloads, and its total
  is the length of it. On an empty sink that is all there is (`FormatWriter.writeFrames_ofSink`).
* `FormatWriter.batches_accept`: nor does it show how the payloads are cut into batches, since a
  batch leaves the format in the state that the next one needs (`FormatWriter.writeFrames_reply`).
-/

namespace MessageFraming

/-- Sinks that may accept every write, in pieces of any size. -/
class AcceptingSink (σ : Type) [ByteSink σ] where
  /-- The bytes that the sink has taken. -/
  data : σ → Bytes
  /-- No write to come fails. -/
  Accepts : σ → Prop
  write_accepts : ∀ {bytes : Bytes} {s next : σ} {outcome : Outcome IoError Nat}
    {calls : List Call}, bytes ≠ [] → Accepts s →
    ByteSink.write bytes s = ⟨outcome, next, calls⟩ →
    Accepts next
      ∧ ((∃ n, outcome = .ok (n + 1) ∧ data next = data s ++ bytes.take (n + 1))
        ∨ ∃ e, outcome = .error e ∧ e.isInterrupted ∧ data next = data s)

/-! ## Sinks -/

instance : AcceptingSink MemorySink where
  data := MemorySink.data
  Accepts _ := True
  write_accepts {bytes s _ _ _} hne _ hwrite := by
    obtain ⟨n, hn⟩ := Nat.exists_eq_succ_of_ne_zero (Nat.ne_of_gt (List.length_pos_iff.mpr hne))
    cases hwrite
    refine ⟨trivial, Or.inl ⟨n, congrArg Outcome.ok hn, ?_⟩⟩
    rw [List.take_of_length_le (Nat.le_of_eq hn)]

/-- A rule that takes something, or interrupts. -/
def WriteRule.Harmless : WriteRule → Prop
  | .accept most => most ≠ some 0
  | .fail e => e.isInterrupted
  | .crash _ => False

/-- What is taken is not nothing. -/
theorem ScriptedSink.take_accepts {n : Nat} {bytes : Bytes} (hn : 0 < n) (hne : bytes ≠ [])
    (s : ScriptedSink) :
    ∃ m, (take n bytes s).outcome = .ok (m + 1)
      ∧ (take n bytes s).state.data = s.data ++ bytes.take (m + 1) := by
  have hpos := List.length_pos_iff.mpr hne
  have hmin : min n bytes.length - 1 + 1 = min n bytes.length := by omega
  refine ⟨min n bytes.length - 1, ?_, ?_⟩
  · show Outcome.ok (bytes.take n).length = _
    rw [List.length_take, hmin]
  · show s.data ++ bytes.take n = _
    rw [hmin, List.take_eq_take_min]

/-- A scripted sink accepts what comes while it is open and has harmless rules only. -/
instance : AcceptingSink ScriptedSink where
  data := ScriptedSink.data
  Accepts s := s.closed = false ∧ ∀ rule ∈ s.writes, rule.Harmless
  write_accepts {bytes s _ _ _} hne h hwrite := by
    obtain ⟨hopen, hrules⟩ := h
    have hpos := List.length_pos_iff.mpr hne
    simp only [ByteSink.write, ScriptedSink.write, hopen, Bool.false_eq_true, if_false] at hwrite
    split at hwrite
    · cases hwrite
      exact ⟨⟨hopen, hrules⟩, Or.inl (s.take_accepts hpos hne)⟩
    · rename_i most rules hwrites
      rw [hwrites] at hrules
      obtain ⟨hrule, hrules⟩ := List.forall_mem_cons.mp hrules
      have hmost : 0 < most.getD bytes.length := by
        cases most with
        | none => exact hpos
        | some n => exact Nat.pos_of_ne_zero fun hzero => hrule (congrArg some hzero)
      cases hwrite
      exact ⟨⟨rfl, hrules⟩, Or.inl (ScriptedSink.take_accepts hmost hne _)⟩
    · rename_i e rules hwrites
      rw [hwrites] at hrules
      obtain ⟨hrule, hrules⟩ := List.forall_mem_cons.mp hrules
      cases hwrite
      exact ⟨⟨rfl, hrules⟩, Or.inr ⟨e, rfl, hrule, rfl⟩⟩
    · rename_i message rules hwrites
      rw [hwrites] at hrules
      exact absurd (List.forall_mem_cons.mp hrules).1 id

/-! ## Batches -/

namespace FrameWriter

variable {ω : Type} [FrameWriter ω]

/-- Writes batches in order and goes on behind those that fail; how each one ended. -/
def batchOutcomes : List (List Bytes) → ω → List (Outcome FrameError Nat)
  | [], _ => []
  | batch :: batches, w =>
    (writeFrames batch w).outcome :: batchOutcomes batches (writeFrames batch w).state

/-- The writer behind them. -/
def afterBatches : List (List Bytes) → ω → ω
  | [], w => w
  | batch :: batches, w => afterBatches batches (writeFrames batch w).state

end FrameWriter

/-! ## Writers -/

section

variable {σ : Type} [ByteSink σ] [AcceptingSink σ]

open AcceptingSink

/-- The sink comes from `s` to `last` while it takes all of `bytes`: write by write, each of which
takes some of what is left or is interrupted. -/
inductive Takes : Bytes → σ → σ → Prop where
  | done (s : σ) : Takes [] s s
  | taken {bytes : Bytes} {s next last : σ} {n : Nat} (hne : bytes ≠ [])
      (hdata : data next = data s ++ bytes.take (n + 1)) :
      Takes (bytes.drop (n + 1)) next last → Takes bytes s last
  | interrupted {bytes : Bytes} {s next last : σ} (hdata : data next = data s) :
      Takes bytes next last → Takes bytes s last

/-- What was taken stands behind what was on the sink. -/
theorem Takes.data_eq {bytes : Bytes} {s last : σ} (h : Takes bytes s last) :
    data last = data s ++ bytes := by
  induction h with
  | done s => exact (List.append_nil _).symm
  | taken _ hdata _ ih => rw [ih, hdata, List.append_assoc, List.take_append_drop]
  | interrupted hdata _ ih => rw [ih, hdata]

/-- Writing all succeeds, however often the sink has to be asked. Recursion of `writeAll`. -/
theorem writeAll_takes (bytes : Bytes) {s : σ} (h : Accepts s) :
    ∃ last calls, ByteSink.writeAll bytes s = ⟨.ok (), last, calls⟩ ∧ Takes bytes s last
      ∧ Accepts last := by
  fun_induction ByteSink.writeAll bytes s with
  | case1 s => exact ⟨s, [], rfl, .done s, h⟩
  | case2 bytes s hne next calls hwrite =>
    obtain ⟨-, ⟨n, hok, -⟩ | ⟨e, hfail, -⟩⟩ := write_accepts hne h hwrite
    · cases hok
    · cases hfail
  | case3 bytes s hne n next calls hwrite ih =>
    obtain ⟨hnext, ⟨m, hok, hdata⟩ | ⟨e, hfail, -⟩⟩ := write_accepts hne h hwrite
    · cases hok
      obtain ⟨last, calls', hreply, htakes, haccepts⟩ := ih hnext
      exact ⟨last, calls ++ calls', by rw [hreply]; rfl, .taken hne hdata htakes, haccepts⟩
    · cases hfail
  | case4 bytes s hne e next calls hwrite he ih =>
    -- an interrupted write took nothing, and is made again
    obtain ⟨hnext, ⟨m, hok, -⟩ | ⟨e', -, -, hdata⟩⟩ := write_accepts hne h hwrite
    · cases hok
    · obtain ⟨last, calls', hreply, htakes, haccepts⟩ := ih hnext
      exact ⟨last, calls ++ calls', by rw [hreply]; rfl, .interrupted hdata htakes, haccepts⟩
  | case5 bytes s hne e next calls hwrite he =>
    obtain ⟨-, ⟨m, hok, -⟩ | ⟨e', hfail, he', -⟩⟩ := write_accepts hne h hwrite
    · cases hok
    · cases hfail
      exact absurd he' he
  | case6 bytes s hne message next calls hwrite =>
    obtain ⟨-, ⟨m, hok, -⟩ | ⟨e', hfail, -⟩⟩ := write_accepts hne h hwrite
    · cases hok
    · cases hfail

namespace FormatWriter

variable {f : WireFormat}

/-- One frame goes behind what the sink holds. -/
theorem writeFrame_accepts (payload : Bytes) {w : FormatWriter f σ} (h : Accepts w.sink) :
    ∃ sink calls, w.writeFrame payload
        = ⟨.ok (f.frame w.state payload).length, ⟨sink, f.next w.state⟩, calls⟩
      ∧ data sink = data w.sink ++ f.frame w.state payload ∧ Accepts sink := by
  -- the sink takes all of the head and then all of the payload
  obtain ⟨middle, calls, hhead, hmiddle, hnext⟩ := writeAll_takes (f.head w.state payload) h
  obtain ⟨sink, calls', hpayload, hlast, hsink⟩ := writeAll_takes payload hnext
  refine ⟨sink, calls ++ calls', ?_, ?_, hsink⟩
  · unfold writeFrame writeParts
    rw [hhead, WireFormat.frame, List.length_append]
    show Reply.mapState _ (Reply.after calls
      (((ByteSink.writeAll payload middle).atStep .writePayload).map fun _ => _)) = _
    rw [hpayload]
    rfl
  · rw [hlast.data_eq, hmiddle.data_eq, WireFormat.frame, List.append_assoc]

/-- A batch goes behind what the sink holds, and leaves the format behind its last payload.
Induction on the payloads, of which the first one leaves a sink that takes the others. -/
theorem writeFrames_reply (payloads : List Bytes) {w : FormatWriter f σ} (h : Accepts w.sink) :
    ∃ sink calls, FrameWriter.writeFrames payloads w
        = ⟨.ok (f.encodeFrom w.state payloads).length, ⟨sink, f.stateAfter w.state payloads⟩, calls⟩
      ∧ data sink = data w.sink ++ f.encodeFrom w.state payloads ∧ Accepts sink := by
  induction payloads generalizing w with
  | nil => exact ⟨w.sink, [], rfl, (List.append_nil _).symm, h⟩
  | cons payload payloads ih =>
    obtain ⟨middle, calls, hframe, hmiddle, hnext⟩ := writeFrame_accepts payload h
    -- the first frame leaves the writer in the next state
    obtain ⟨sink, calls', hlater, hdata, hsink⟩ := ih (w := ⟨middle, f.next w.state⟩) hnext
    have hfirst : FrameWriter.writeFrame payload w
        = ⟨.ok (f.frame w.state payload).length, ⟨middle, f.next w.state⟩, calls⟩ := hframe
    refine ⟨sink, calls ++ calls', ?_, ?_, hsink⟩
    · show (FrameWriter.writeFrame payload w).bind _ = _
      rw [hfirst, Reply.bind_ok]
      show ((FrameWriter.writeFrames payloads _).map _).after calls = _
      rw [hlater, WireFormat.encodeFrom, List.length_append]
      rfl
    · rw [hdata, hmiddle, WireFormat.encodeFrom, List.append_assoc]

/-- **A writer leaves the encoding of its payloads**, and the total is its length. -/
theorem writeFrames_accepts (payloads : List Bytes) {w : FormatWriter f σ} (h : Accepts w.sink) :
    (FrameWriter.writeFrames payloads w).outcome = .ok (f.encodeFrom w.state payloads).length
      ∧ data (FrameWriter.writeFrames payloads w).state.sink
        = data w.sink ++ f.encodeFrom w.state payloads := by
  obtain ⟨sink, calls, hreply, hdata, -⟩ := writeFrames_reply payloads h
  rw [hreply]
  exact ⟨rfl, hdata⟩

/-- On an empty sink that is all there is. -/
theorem writeFrames_ofSink (payloads : List Bytes) {sink : σ} (h : Accepts sink)
    (hempty : data sink = []) :
    (FrameWriter.writeFrames payloads (.ofSink sink : FormatWriter f σ)).outcome
        = .ok (f.encode payloads).length
      ∧ data (FrameWriter.writeFrames payloads (.ofSink sink : FormatWriter f σ)).state.sink
        = f.encode payloads := by
  obtain ⟨htotal, hdata⟩ := writeFrames_accepts payloads (w := (.ofSink sink : FormatWriter f σ)) h
  refine ⟨htotal, hdata.trans ?_⟩
  show data sink ++ f.encode payloads = _
  rw [hempty, List.nil_append]

/-- **Batches leave what one batch of all their payloads leaves**, and their totals add up to its
total. Induction on the batches: the wire can be cut where a batch ends. -/
theorem batches_accept (batches : List (List Bytes)) {w : FormatWriter f σ} (h : Accepts w.sink) :
    ∃ totals : List Nat,
      FrameWriter.batchOutcomes batches w = totals.map Outcome.ok
        ∧ totals.sum = (f.encodeFrom w.state batches.flatten).length
        ∧ data (FrameWriter.afterBatches batches w).sink
          = data w.sink ++ f.encodeFrom w.state batches.flatten := by
  induction batches generalizing w with
  | nil => exact ⟨[], rfl, rfl, (List.append_nil _).symm⟩
  | cons batch batches ih =>
    -- the next batch finds the format where the payloads of this one have left it
    obtain ⟨middle, calls, hbatch, hmiddle, hnext⟩ := writeFrames_reply batch h
    obtain ⟨totals, houtcomes, hsum, hdata⟩ :=
      ih (w := ⟨middle, f.stateAfter w.state batch⟩) hnext
    rw [List.flatten_cons, f.encodeFrom_append]
    refine ⟨(f.encodeFrom w.state batch).length :: totals, ?_, ?_, ?_⟩
    · rw [FrameWriter.batchOutcomes, hbatch, houtcomes, List.map_cons]
    · rw [List.sum_cons, hsum, List.length_append]
    · rw [FrameWriter.afterBatches, hbatch, hdata, hmiddle, List.append_assoc]

end FormatWriter

end

end MessageFraming
