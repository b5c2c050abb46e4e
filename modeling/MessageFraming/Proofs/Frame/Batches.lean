import MessageFraming.LengthPrefixed.Format
import MessageFraming.Lines.Format
import MessageFraming.Proofs.Frame.Torn
import MessageFraming.Proofs.Varint.Grammar

/-!
# Single writes and batches

Payloads are written one by one or in batches, and a batch is nothing but single writes that stop at
the first failure. What a writer has behind it is therefore always a list of single writes, some of
which may have failed, and all that a format remembers of them is that they were made.

* `FrameWriter.writeFrames_of_returned`, `FrameWriter.writeFrames_of_failed`: a batch, by what its
  single writes come to.
* `FormatWriter.Begun`: what a writer was given to write so far.
* `FrameWise`: every write leaves its frame or a front of it, and batches tell how many bytes they
  have left.
* `FormatWriter.frameWise`: writers of every format are like this, on every honest sink. A frame is
  what the format makes of the payload behind those that were begun.
* `frames_whole_or_torn`: what the frames of the two formats are.
-/

namespace MessageFraming

theorem Outcome.isOk_iff {ε α : Type} {o : Outcome ε α} : o.isOk ↔ ∃ value, o = .ok value := by
  cases o with
  | ok value => exact iff_of_true rfl ⟨value, rfl⟩
  | error e => exact iff_of_false Bool.false_ne_true fun ⟨value, h⟩ => by cases h
  | crash message => exact iff_of_false Bool.false_ne_true fun ⟨value, h⟩ => by cases h

/-! ## Batches -/

namespace FrameWriter

variable {ω : Type} [FrameWriter ω]

/-- All of these payloads are written, one after another. -/
def AllReturn (payloads : List Bytes) (w : ω) : Prop :=
  ∀ attempt ∈ attempts payloads w, attempt.2.isOk

theorem allReturn_nil (w : ω) : AllReturn [] w := fun _ hmem => absurd hmem List.not_mem_nil

/-- The first write returns, and all others do behind it. -/
theorem allReturn_cons {payload : Bytes} {payloads : List Bytes} {w : ω} :
    AllReturn (payload :: payloads) w
      ↔ (writeFrame payload w).outcome.isOk ∧ AllReturn payloads (writeFrame payload w).state :=
  List.forall_mem_cons

/-- A batch begins with its first payload. -/
theorem writeFrames_cons {payload : Bytes} {payloads : List Bytes} {w : ω} :
    writeFrames (payload :: payloads) w
      = (writeFrame payload w).bind fun count w =>
          (writeFrames payloads w).map fun total => count + total := rfl

/-- A first write that returns is counted in. -/
theorem writeFrames_cons_of_ok {payload : Bytes} {payloads : List Bytes} {w : ω} {count : Nat}
    (h : (writeFrame payload w).outcome = .ok count) :
    writeFrames (payload :: payloads) w
      = ((writeFrames payloads (writeFrame payload w).state).map fun total => count + total).after
          (writeFrame payload w).calls := by
  rw [writeFrames_cons]
  rcases hreply : writeFrame payload w with ⟨outcome, next, calls⟩
  rw [hreply] at h
  cases h
  rfl

/-- A write that does not return is the last one. -/
theorem writeFrames_cons_of_failed {payload : Bytes} {payloads : List Bytes} {w : ω}
    (h : ¬ (writeFrame payload w).outcome.isOk) :
    writeFrames (payload :: payloads) w = writeFrame payload w := by
  rw [writeFrames_cons]
  rcases hreply : writeFrame payload w with ⟨count | e | message, next, calls⟩
  · rw [hreply] at h
    exact absurd rfl h
  · rfl
  · rfl

/-- A batch of which all is written ends behind its last payload. -/
theorem writeFrames_of_returned {payloads : List Bytes} {w : ω} (h : AllReturn payloads w) :
    (writeFrames payloads w).outcome.isOk
      ∧ (writeFrames payloads w).state = afterAttempts payloads w := by
  induction payloads generalizing w with
  | nil => exact ⟨rfl, rfl⟩
  | cons payload payloads ih =>
    obtain ⟨hfirst, hlater⟩ := allReturn_cons.mp h
    obtain ⟨count, hcount⟩ := Outcome.isOk_iff.mp hfirst
    obtain ⟨hok, hstate⟩ := ih hlater
    rw [writeFrames_cons_of_ok hcount]
    exact ⟨(Outcome.isOk_map _ _).trans hok, hstate⟩

/-- **A batch stops at the first payload that is not written.** It answers what that write answers
and ends where that write ends, and what stands behind that payload makes no difference. -/
theorem writeFrames_of_failed {payloads : List Bytes} {w : ω} (h : ¬ AllReturn payloads w) :
    ∃ before payload later, payloads = before ++ payload :: later ∧ AllReturn before w
      ∧ ¬ (writeFrame payload (afterAttempts before w)).outcome.isOk
      ∧ (writeFrames payloads w).outcome = (writeFrame payload (afterAttempts before w)).outcome
      ∧ (writeFrames payloads w).state = afterAttempts (before ++ [payload]) w
      ∧ ∀ others, writeFrames (before ++ payload :: others) w = writeFrames payloads w := by
  induction payloads generalizing w with
  | nil => exact absurd (allReturn_nil w) h
  | cons first payloads ih =>
    by_cases hfirst : (writeFrame first w).outcome.isOk
    · have hlater : ¬ AllReturn payloads (writeFrame first w).state :=
        fun hlater => h (allReturn_cons.mpr ⟨hfirst, hlater⟩)
      obtain ⟨before, payload, later, rfl, hbefore, hfail, houtcome, hstate, hothers⟩ := ih hlater
      obtain ⟨count, hcount⟩ := Outcome.isOk_iff.mp hfirst
      refine ⟨first :: before, payload, later, rfl, allReturn_cons.mpr ⟨hfirst, hbefore⟩, hfail, ?_,
        ?_, fun others => ?_⟩
      · -- there is no value to which the first count could be added
        rw [writeFrames_cons_of_ok hcount]
        show (writeFrames _ _).outcome.map _ = _
        rw [houtcome]
        show _ = (writeFrame payload (afterAttempts before (writeFrame first w).state)).outcome
        cases hlast :
            (writeFrame payload (afterAttempts before (writeFrame first w).state)).outcome with
        | ok value => exact absurd (Outcome.isOk_iff.mpr ⟨value, hlast⟩) hfail
        | error e => rfl
        | crash message => rfl
      · rw [writeFrames_cons_of_ok hcount]
        exact hstate
      · rw [List.cons_append, writeFrames_cons_of_ok hcount, writeFrames_cons_of_ok hcount, hothers]
    · refine ⟨[], first, payloads, rfl, allReturn_nil w, hfirst, ?_, ?_, fun others => ?_⟩
      · rw [writeFrames_cons_of_failed hfirst]
        rfl
      · rw [writeFrames_cons_of_failed hfirst]
        rfl
      · rw [List.nil_append, writeFrames_cons_of_failed hfirst, writeFrames_cons_of_failed hfirst]

/-- A batch succeeds just where all of it is written. -/
theorem writeFrames_isOk_iff {payloads : List Bytes} {w : ω} :
    (writeFrames payloads w).outcome.isOk ↔ AllReturn payloads w := by
  constructor
  · intro hok
    refine Classical.not_not.mp fun hnot => ?_
    obtain ⟨before, payload, later, -, -, hfail, houtcome, -⟩ := writeFrames_of_failed hnot
    rw [houtcome] at hok
    exact hfail hok
  · exact fun h => (writeFrames_of_returned h).1

end FrameWriter

/-! ## Writers -/

open HonestSink FrameWriter

namespace FormatWriter

variable {σ : Type} [ByteSink σ] {f : WireFormat}

/-- The payloads that `w` was given to write, in order and with whatever success. In between others
may have done anything to its sink. -/
inductive Begun : List Bytes → FormatWriter f σ → Prop where
  | start (sink : σ) : Begun [] (.ofSink sink)
  | write {earlier : List Bytes} {w : FormatWriter f σ} (payload : Bytes) (h : Begun earlier w) :
      Begun (earlier ++ [payload]) (w.writeFrame payload).state
  | sink {earlier : List Bytes} {w : FormatWriter f σ} (sink : σ) (h : Begun earlier w) :
      Begun earlier { w with sink }

namespace Begun

variable {earlier : List Bytes} {w : FormatWriter f σ}

/-- Of its payloads a writer knows what its format remembers. -/
theorem state_eq (h : Begun earlier w) : w.state = f.stateAfter f.start earlier := by
  induction h with
  | start sink => rfl
  | @write earlier w payload _ ih =>
    rw [WireFormat.stateAfter_concat, ← ih]
    rfl
  | sink _ _ ih => exact ih

/-- Those count that it was given since, whatever became of them. -/
theorem afterAttempts (h : Begun earlier w) (payloads : List Bytes) :
    Begun (earlier ++ payloads) (afterAttempts payloads w) := by
  induction payloads generalizing earlier w with
  | nil => rwa [List.append_nil]
  | cons payload payloads ih =>
    rw [List.append_cons]
    exact ih (h.write payload)

end Begun

variable [HonestSink σ]

/-- The total of a batch counts what it leaves on the sink. Induction on the payloads. -/
theorem writeFrames_length {payloads : List Bytes} {w : FormatWriter f σ}
    (h : AllReturn payloads w) :
    ∃ total, (writeFrames payloads w).outcome = .ok total
      ∧ (data (writeFrames payloads w).state.sink).length = (data w.sink).length + total := by
  induction payloads generalizing w with
  | nil => exact ⟨0, rfl, rfl⟩
  | cons payload payloads ih =>
    obtain ⟨hfirst, hlater⟩ := allReturn_cons.mp h
    obtain ⟨total, houtcome, hlength⟩ := ih hlater
    cases w.writeFrame_wrote payload with
    | torn hfail => cases hfirst.symm.trans hfail
    -- a write that returns is whole, and so are those behind it
    | all hok hnow =>
      rw [writeFrames_cons_of_ok hok]
      refine ⟨_, congrArg (Outcome.map _) houtcome, hlength.trans ?_⟩
      show (data (w.writeFrame payload).state.sink).length + total = _
      rw [hnow, List.length_append, Nat.add_assoc]

end FormatWriter

/-! ## Frames -/

/-- How writers of format `f` do on sinks of type `σ`, where `frame earlier payload` is the frame of
a payload for a writer that was given the payloads `earlier` before. -/
structure FrameWise (σ : Type) [ByteSink σ] [HonestSink σ] (f : WireFormat)
    (frame : List Bytes → Bytes → Bytes) : Prop where
  /-- A write that returns tells the length of its frame and has left all of it, and one that does
  not has left a front of it. -/
  write {earlier : List Bytes} {w : FormatWriter f σ} (payload : Bytes) (h : w.Begun earlier) :
    Wrote (frame earlier payload).length (frame earlier payload) (data w.sink)
      (writeFrame payload w).outcome (data (writeFrame payload w).state.sink)
  /-- A batch returns just where every payload is written, and tells how many bytes it has left. -/
  returns_iff (w : FormatWriter f σ) (payloads : List Bytes) (total : Nat) :
    (writeFrames payloads w).outcome = .ok total
      ↔ AllReturn payloads w
        ∧ (writeFrames payloads w).state = afterAttempts payloads w
        ∧ (data (writeFrames payloads w).state.sink).length = (data w.sink).length + total
  /-- A batch that does not return ends with the first write of it that does not, and the payloads
  behind that one make no difference. -/
  stops {w : FormatWriter f σ} {payloads : List Bytes} (hfail : ¬ AllReturn payloads w) :
    ∃ before payload later, payloads = before ++ payload :: later ∧ AllReturn before w
      ∧ ¬ (writeFrame payload (afterAttempts before w)).outcome.isOk
      ∧ (writeFrames payloads w).outcome = (writeFrame payload (afterAttempts before w)).outcome
      ∧ (writeFrames payloads w).state = afterAttempts (before ++ [payload]) w
      ∧ ∀ others, writeFrames (before ++ payload :: others) w = writeFrames payloads w

/-- A frame is what the format makes of a payload in the state that those before it left. -/
theorem FormatWriter.frameWise (σ : Type) [ByteSink σ] [HonestSink σ] (f : WireFormat) :
    FrameWise σ f fun earlier payload => f.frame (f.stateAfter f.start earlier) payload where
  write {_ w} payload h := by
    have hwrote := w.writeFrame_wrote payload
    rwa [h.state_eq] at hwrote
  returns_iff w payloads total := by
    constructor
    · intro houtcome
      -- a batch that returns has returned every write
      have hall : AllReturn payloads w := writeFrames_isOk_iff.mp (by rw [houtcome]; rfl)
      obtain ⟨total', houtcome', hlength⟩ := writeFrames_length hall
      cases houtcome.symm.trans houtcome'
      exact ⟨hall, (writeFrames_of_returned hall).2, hlength⟩
    · rintro ⟨hall, -, hlength⟩
      obtain ⟨total', houtcome, hlength'⟩ := writeFrames_length hall
      rw [houtcome, Nat.add_left_cancel (hlength.symm.trans hlength')]
  stops hfail := writeFrames_of_failed hfail

/-- A separator is due behind every payload that was begun. -/
theorem Lines.frame_stateAfter (earlier : List Bytes) (payload : Bytes) :
    format.frame (format.stateAfter format.start earlier) payload
      = (if earlier = [] then [] else [newline]) ++ payload := by
  -- once a frame was begun, a separator stands before every other one
  have hbegun : ∀ later : List Bytes, format.stateAfter true later = true := fun later => by
    induction later with
    | nil => rfl
    | cons _ later ih => exact ih
  cases earlier with
  | nil => rfl
  | cons first earlier =>
    rw [if_neg (List.cons_ne_nil first earlier)]
    show format.frame (format.stateAfter true earlier) payload = _
    rw [hbegun]
    rfl

/-- **A write leaves its frame or a front of it**, on any sink and whatever was written before, and
a batch stops at the first payload that is not written. A length-prefixed frame is the shortest form
of the payload's length and then the payload. A line is the payload, behind a `\n` if the writer was
given another one before, even if that one failed. -/
theorem frames_whole_or_torn (σ : Type) [ByteSink σ] [HonestSink σ] :
    FrameWise σ LengthPrefixed.format
        (fun _ payload => Varint.encode payload.length.toUInt64 ++ payload)
      ∧ FrameWise σ Lines.format
        (fun earlier payload => (if earlier = [] then [] else [newline]) ++ payload)
      ∧ ∀ payload : Bytes, payload.length < UInt64.size →
        Varint.Minimal (Varint.encode payload.length.toUInt64)
          ∧ Varint.value (Varint.encode payload.length.toUInt64) = payload.length := by
  refine ⟨FormatWriter.frameWise σ LengthPrefixed.format, ?_, fun payload hlt => ?_⟩
  · have hline := FormatWriter.frameWise σ Lines.format
    simp only [Lines.frame_stateAfter] at hline
    exact hline
  · have hvalue : Varint.value (Varint.encode payload.length.toUInt64) = payload.length := by
      rw [Varint.value_encode]
      exact UInt64.toNat_ofNat_of_lt' hlt
    refine ⟨(Varint.minimal_iff_encode (Varint.form_encode _)).mpr ?_, hvalue⟩
    rw [hvalue]

def raggedPayloads : List Bytes := [[97, 98], [99, 100, 101], [102]]

/-- Takes the first frame in pieces, with an interruption in it, and of the second one only the
head. -/
def raggedWriter : FormatWriter LengthPrefixed.format ScriptedSink := .ofSink
  { name := "pipe"
    writes := [.accept (some 1), .fail (.plain .interrupted "signal"), .accept (some 1),
      .accept none, .accept (some 2), .accept (some 0)]
    flushes := []
    closes := []
    data := []
    closed := false }

theorem frames_whole_or_torn_raggedWriter :
    Wrote 3 [2, 97, 98] [] (writeFrame [97, 98] raggedWriter).outcome [2, 97, 98]
      ∧ Wrote 4 [3, 99, 100, 101] [2, 97, 98]
        (writeFrame [99, 100, 101] (afterAttempts [[97, 98]] raggedWriter)).outcome [2, 97, 98, 3]
      ∧ ¬ AllReturn raggedPayloads raggedWriter
      ∧ (∀ total, (writeFrames raggedPayloads raggedWriter).outcome ≠ .ok total)
      ∧ (writeFrames raggedPayloads raggedWriter).state.sink.data = [2, 97, 98, 3]
      ∧ ([97, 98] : Bytes).length < UInt64.size
      ∧ Varint.Minimal [2] := by
  have htwo : Varint.encode ([97, 98] : Bytes).length.toUInt64 = [2] := by decide +kernel
  have hthree : Varint.encode ([99, 100, 101] : Bytes).length.toUInt64 = [3] := by decide +kernel
  have hfirst : data (writeFrame [97, 98] raggedWriter).state.sink = [2, 97, 98] := by
    decide +kernel
  have hsecond : data (writeFrame [99, 100, 101] (afterAttempts [[97, 98]] raggedWriter)).state.sink
      = [2, 97, 98, 3] := by decide +kernel
  have hstop : ¬ AllReturn raggedPayloads raggedWriter := by
    unfold AllReturn
    decide +kernel
  obtain ⟨hprefixed, -, hminimal⟩ := frames_whole_or_torn ScriptedSink
  -- the first frame is whole, and the second one stands behind it
  have hbegun : raggedWriter.Begun [] := .start raggedWriter.sink
  have hwhole := hprefixed.write [97, 98] hbegun
  have htorn := hprefixed.write [99, 100, 101] (hbegun.afterAttempts [[97, 98]])
  have hshortest := (hminimal [97, 98] (by decide)).1
  rw [htwo, hfirst] at hwhole
  rw [hthree, hsecond] at htorn
  rw [htwo] at hshortest
  refine ⟨hwhole, ?_, hstop, fun total h => ?_, by decide +kernel, by decide, hshortest⟩
  · rw [← hfirst]
    exact htorn
  · exact hstop ((hprefixed.returns_iff raggedWriter raggedPayloads total).mp h).1

end MessageFraming
