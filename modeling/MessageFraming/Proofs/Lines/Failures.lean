import MessageFraming.Proofs.Merge
import MessageFraming.Proofs.Frame.Torn
import MessageFraming.Proofs.Lines.RoundTrip

/-!
# Lines on a failing sink

A write that fails leaves a front of its payload behind, and no `\n` follows it. Nothing is glued to
that front all the same, because the separator is not written behind a line but in front of the next
one: a writer that has begun a payload separates whatever it writes next from what is there, be that
whole or torn. Only the very first payload has no separator, and nothing of this writer is in front
of it.

So what stands on the sink is what a sink without failures would hold for another list of payloads:
those that were acknowledged, and among them fronts of some that were not.

* `writeFrame_cases`: what one write adds to the wire.
* `exists_segments`: what a run adds to it, by induction.
* `acknowledged_survive`: so every acknowledged payload is a line of its own, in order.
-/

namespace MessageFraming

namespace Lines

open HonestSink FrameWriter

/-- Between the `\n`s of a wire stand the payloads, the last one as well as the others. Induction on
the payloads. -/
theorem splitOn_encode {payloads : List Bytes} (hne : payloads ≠ [])
    (hclean : ∀ payload ∈ payloads, newline ∉ payload) :
    (format.encode payloads).splitOn newline = payloads := by
  rw [encode_eq_join]
  induction payloads with
  | nil => exact absurd rfl hne
  | cons payload payloads ih =>
    obtain ⟨hpayload, hclean⟩ := List.forall_mem_cons.mp hclean
    cases payloads with
    | nil => exact List.splitOn_eq_singleton hpayload
    | cons next payloads =>
      rw [Bytes.join, List.splitOn_append_cons_self_of_not_mem hpayload,
        ih (List.cons_ne_nil _ _) hclean]

variable {σ : Type} [ByteSink σ] [HonestSink σ]

/-- **One write.** It returns and its line is there; or it fails at the separator and nothing is; or
it fails behind the separator, and a front of its line is there. -/
theorem writeFrame_cases (payload : Bytes) (w : FormatWriter format σ) :
    (w.writeFrame payload).outcome.isOk
        ∧ data (w.writeFrame payload).state.sink = data w.sink ++ format.frame w.state payload
      ∨ ¬ (w.writeFrame payload).outcome.isOk
        ∧ (w.state = true ∧ data (w.writeFrame payload).state.sink = data w.sink
          ∨ ∃ segment, Torn segment payload
            ∧ data (w.writeFrame payload).state.sink
              = data w.sink ++ format.frame w.state segment) := by
  cases w.writeFrame_wrote payload with
  | all hok hnow =>
    refine Or.inl ⟨?_, hnow⟩
    rw [hok]
    rfl
  | @torn piece hfail hpiece hnow =>
    refine Or.inr ⟨by rw [hfail]; exact Bool.false_ne_true, ?_⟩
    rcases hpiece.cases_append with hhead | ⟨segment, hsegment, rfl⟩
    · -- a head has at most one byte
      have hlength := hhead.length_lt
      cases hstate : w.state with
      | false =>
        rw [hstate] at hlength
        cases hlength
      | true =>
        rw [hstate] at hlength
        have hnone : piece = [] := List.eq_nil_of_length_eq_zero (Nat.lt_one_iff.mp hlength)
        rw [hnone, List.append_nil] at hnow
        exact Or.inl ⟨rfl, hnow⟩
    · exact Or.inr ⟨segment, hsegment, hnow⟩

/-- **A run.** The wire grows by the encoding of `segments`, in which the acknowledged payloads have
fronts of the others between them. -/
theorem exists_segments {payloads : List Bytes} (hclean : ∀ payload ∈ payloads, newline ∉ payload)
    (w : FormatWriter format σ) :
    ∃ segments torn,
      data (afterAttempts payloads w).sink = data w.sink ++ format.encodeFrom w.state segments
      ∧ Merge [acknowledged (attempts payloads w), torn] segments
      ∧ (∀ segment ∈ segments, newline ∉ segment)
      ∧ ∀ segment ∈ torn, ∃ payload ∈ failed (attempts payloads w), Torn segment payload := by
  induction payloads generalizing w with
  | nil =>
    refine ⟨[], [], (List.append_nil _).symm, .done ?_, nofun, nofun⟩
    simp [attempts, acknowledged]
  | cons payload payloads ih =>
    obtain ⟨hpayload, hclean⟩ := List.forall_mem_cons.mp hclean
    obtain ⟨segments, torn, hdata, hmerge, hsegments, htorn⟩ :=
      ih hclean (w.writeFrame payload).state
    have hlater : data (afterAttempts (payload :: payloads) w).sink
        = data (w.writeFrame payload).state.sink ++ format.encodeFrom true segments := hdata
    have htorn' : ∀ segment ∈ torn,
        ∃ payload' ∈ failed (attempts (payload :: payloads) w), Torn segment payload' := by
      intro segment hmem
      obtain ⟨payload', hfailed, hpiece⟩ := htorn segment hmem
      exact ⟨payload', failed_subset_cons hfailed, hpiece⟩
    rcases writeFrame_cases payload w with ⟨hok, hnow⟩ | ⟨hfail, hmissing | ⟨segment, hpiece, hnow⟩⟩
    · refine ⟨payload :: segments, torn, ?_, ?_, List.forall_mem_cons.mpr ⟨hpayload, hsegments⟩,
        htorn'⟩
      · rw [hlater, hnow, List.append_assoc]
        rfl
      · rw [attempts, acknowledged_cons_of_ok hok]
        exact .next (i := 0) rfl hmerge
    · -- not even the separator is there, and the next write makes up for it
      obtain ⟨hbegun, hnow⟩ := hmissing
      refine ⟨segments, torn, ?_, ?_, hsegments, htorn'⟩
      · rw [hlater, hnow, hbegun]
      · rwa [attempts, acknowledged_cons_of_failed hfail]
    · -- what is torn stays, and the separator of the next write closes it
      have hsegment : newline ∉ segment := fun hmem => hpayload (hpiece.1.subset hmem)
      refine ⟨segment :: segments, segment :: torn, ?_, ?_,
        List.forall_mem_cons.mpr ⟨hsegment, hsegments⟩,
        List.forall_mem_cons.mpr ⟨⟨payload, mem_failed_cons hfail, hpiece⟩, htorn'⟩⟩
      · rw [hlater, hnow, List.append_assoc]
        rfl
      · rw [attempts, acknowledged_cons_of_failed hfail]
        exact .next (i := 1) rfl hmerge

/-- **A failing sink spoils no line that was acknowledged.** Whatever the sink takes, refuses and
interrupts, and however writing goes on after a failure: between the `\n`s of what it received stand
the payloads whose writes returned, each one whole, by itself and in its place, and besides them
nothing but fronts of payloads whose writes failed. -/
theorem acknowledged_survive {payloads : List Bytes}
    (hclean : ∀ payload ∈ payloads, newline ∉ payload) (sink : σ) :
    ∃ received torn,
      data (afterAttempts payloads (.ofSink sink : FormatWriter format σ)).sink
        = data sink ++ received
      ∧ Merge [acknowledged (attempts payloads (.ofSink sink : FormatWriter format σ)), torn]
          (received.splitOn newline)
      ∧ ∀ segment ∈ torn, segment = []
        ∨ ∃ payload ∈ failed (attempts payloads (.ofSink sink : FormatWriter format σ)),
          Torn segment payload := by
  obtain ⟨segments, torn, hdata, hmerge, hsegments, htorn⟩ :=
    exists_segments hclean (.ofSink sink : FormatWriter format σ)
  by_cases hnone : segments = []
  · -- nothing was received, and that is one segment without bytes
    subst hnone
    refine ⟨[], [[]], hdata, ?_, fun segment hmem => Or.inl (List.mem_singleton.mp hmem)⟩
    cases hmerge with
    | done hall => exact .next (i := 1) rfl (.done (by simpa using hall _ List.mem_cons_self))
  · refine ⟨format.encode segments, torn, hdata, ?_,
      fun segment hmem => Or.inr (htorn segment hmem)⟩
    rwa [splitOn_encode hnone hsegments]

def wornPayloads : List Bytes := [[97, 98], [99], [100, 101], [], [102]]

/-- Tears the first payload, takes no separator for the second one, interrupts the third, and fails
at the last. -/
def wornSink : ScriptedSink where
  name := "pipe"
  writes := [.accept (some 1), .fail (.plain .brokenPipe "gone"), .accept (some 0), .accept none,
    .fail (.plain .interrupted "signal"), .accept (some 1), .accept none, .accept none,
    .accept none, .fail (.plain .timedOut "late")]
  flushes := []
  closes := []
  data := []
  closed := false

def wornWriter : FormatWriter format ScriptedSink := .ofSink wornSink

theorem acknowledged_survive_wornSink :
    (∀ payload ∈ wornPayloads, newline ∉ payload)
      ∧ (afterAttempts wornPayloads wornWriter).sink.data = [97, 10, 100, 101, 10, 10]
      ∧ ∃ torn, Merge [[[100, 101], []], torn] [[97], [100, 101], [], []]
        ∧ ∀ segment ∈ torn, segment = []
          ∨ ∃ payload ∈ [[97, 98], [99], [102]], Torn segment payload := by
  have hclean : ∀ payload ∈ wornPayloads, newline ∉ payload := by decide
  have hwire : (afterAttempts wornPayloads wornWriter).sink.data = [97, 10, 100, 101, 10, 10] := by
    decide +kernel
  have hacknowledged : acknowledged (attempts wornPayloads wornWriter) = [[100, 101], []] := by
    decide +kernel
  have hfailed : failed (attempts wornPayloads wornWriter) = [[97, 98], [99], [102]] := by
    decide +kernel
  have hsplit : List.splitOn newline [97, 10, 100, 101, 10, 10] = [[97], [100, 101], [], []] := by
    decide +kernel
  -- evaluation gives the bytes and the answers, the theorem how the lines came about
  obtain ⟨received, torn, hdata, hmerge, htorn⟩ := acknowledged_survive hclean wornSink
  have hreceived : received = [97, 10, 100, 101, 10, 10] := hdata.symm.trans hwire
  refine ⟨hclean, hwire, torn, ?_, ?_⟩
  · rw [← hsplit, ← hreceived, ← hacknowledged]
    exact hmerge
  · rw [← hfailed]
    exact htorn

end Lines

end MessageFraming
