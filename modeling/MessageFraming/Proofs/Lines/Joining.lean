import MessageFraming.Lines.Format
import MessageFraming.Proofs.Frame.Writing

/-!
# Lines that are written are lines that are joined

A writer of lines knows of the payloads before only that there were any. That is enough to put a
`\n` between each pair, also where the payloads come in batches, with calls of their own, and where
a payload or a batch is empty.

* `Lines.encode_eq_join`: the wire is the payloads joined by `\n`.
* `Lines.batches_leave_join`: so is what batches leave on a sink that accepts what comes, however
  the payloads are cut into batches.
-/

namespace MessageFraming

namespace Lines

/-! ## The wire -/

/-- Behind a payload every other one has its separator. -/
theorem encodeFrom_begun (payload : Bytes) (payloads : List Bytes) :
    format.encodeFrom true (payload :: payloads)
      = newline :: Bytes.join newline (payload :: payloads) := by
  induction payloads generalizing payload with
  | nil => simp [WireFormat.encodeFrom, WireFormat.frame, format, Bytes.join]
  | cons next payloads ih =>
    show [newline] ++ payload ++ format.encodeFrom true (next :: payloads) = _
    rw [ih, Bytes.join, List.append_assoc, List.singleton_append]

/-- Every line but the first has a line feed before it, so the wire is the payloads joined. -/
theorem encode_eq_join (payloads : List Bytes) :
    format.encode payloads = Bytes.join newline payloads := by
  cases payloads with
  | nil => rfl
  | cons payload payloads =>
    -- the first payload has no separator, whether it has bytes or not
    show [] ++ payload ++ format.encodeFrom true payloads = _
    rw [List.nil_append]
    cases payloads with
    | nil => exact List.append_nil payload
    | cons next payloads => rw [encodeFrom_begun, Bytes.join]

/-! ## Batches -/

/-- **What batches of lines leave is the payloads joined by `\n`**, for every list of batches and
every sink that accepts what comes, in pieces of any size. Every batch is written, and the totals
that are returned add up to the length of it. -/
theorem batches_leave_join {σ : Type} [ByteSink σ] [AcceptingSink σ] {sink : σ}
    (hsink : AcceptingSink.Accepts sink) (batches : List (List Bytes)) :
    ∃ totals : List Nat,
      FrameWriter.batchOutcomes batches (.ofSink sink : FormatWriter format σ)
          = totals.map Outcome.ok
        ∧ totals.sum = (Bytes.join newline batches.flatten).length
        ∧ AcceptingSink.data
            (FrameWriter.afterBatches batches (.ofSink sink : FormatWriter format σ)).sink
          = AcceptingSink.data sink ++ Bytes.join newline batches.flatten := by
  obtain ⟨totals, houtcomes, hsum, hdata⟩ :=
    FormatWriter.batches_accept (w := (.ofSink sink : FormatWriter format σ)) batches hsink
  rw [← encode_eq_join]
  exact ⟨totals, houtcomes, hsum, hdata⟩

/-- Five payloads, three of them empty and one with a `\n` of its own, in four batches, one of which
is empty. The sink takes them in pieces. -/
def scatteredBatches : List (List Bytes) := [[[], [97]], [], [[]], [[98, 10], []]]

def narrowSink : ScriptedSink :=
  ⟨"sink", [.accept (some 1), .fail (.plain .interrupted "signal"), .accept (some 1), .accept none,
    .accept (some 1)], [], [], [], false⟩

theorem batches_leave_join_scatteredBatches :
    ∃ totals : List Nat,
      FrameWriter.batchOutcomes scatteredBatches (.ofSink narrowSink : FormatWriter format _)
          = totals.map Outcome.ok
        ∧ totals.sum = 7
        ∧ (FrameWriter.afterBatches scatteredBatches
            (.ofSink narrowSink : FormatWriter format _)).sink.data
          = [10, 97, 10, 10, 98, 10, 10] := by
  have hsink : AcceptingSink.Accepts narrowSink := by
    refine ⟨rfl, ?_⟩
    simp [narrowSink, WriteRule.Harmless, IoError.plain, IoError.isInterrupted]
  exact batches_leave_join hsink scatteredBatches

end Lines

end MessageFraming
