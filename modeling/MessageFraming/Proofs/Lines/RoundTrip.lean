import MessageFraming.Proofs.Lines.Joining
import MessageFraming.Proofs.Lines.Reading

/-!
# Round trips of lines

The line format puts a `\n` between payloads and none behind the last one, and a reader takes a `\r`
off each line and finds no line where nothing stands behind the last `\n`. So a reader does not give
back every list of payloads that was written, and this module says which ones it does.

* `Lines.shown`: the payloads that show on the wire, which are all but a last one without bytes.
  They are the lines of the wire (`split_encode`).
* `Lines.frames_encode`: the frames of the wire are these payloads without a `\r` at their ends.
* `Lines.round_trip`: what a reader makes of the output of a writer, and when this is what was
  written.
-/

namespace MessageFraming

namespace Lines

/-! ## The lines of the wire -/

/-- The payloads that show on the wire: behind the last `\n`, one without bytes does not. -/
def shown (payloads : List Bytes) : List Bytes :=
  if payloads.getLast? = some [] then payloads.dropLast else payloads

theorem shown_cons_cons (payload next : Bytes) (payloads : List Bytes) :
    shown (payload :: next :: payloads) = payload :: shown (next :: payloads) := by
  unfold shown
  rw [List.getLast?_cons_cons, List.dropLast_cons_cons]
  split <;> rfl

/-- Only payloads are shown. -/
theorem shown_subset (payloads : List Bytes) : shown payloads ⊆ payloads := by
  unfold shown
  split
  · exact List.dropLast_subset payloads
  · exact List.Subset.refl payloads

/-- All payloads show, unless the last one has no bytes. -/
theorem length_shown_iff (payloads : List Bytes) :
    (shown payloads).length = payloads.length ↔ payloads.getLast? ≠ some [] := by
  unfold shown
  split
  · rename_i hlast
    have hpos : 0 < payloads.length :=
      List.length_pos_of_mem (List.mem_of_getLast? hlast)
    rw [List.length_dropLast]
    exact iff_of_false (by omega) fun hne => hne hlast
  · rename_i hlast
    exact iff_of_true rfl hlast

/-- **The lines of the wire are the payloads that show.** Induction on the payloads: the first `\n`
ends the first of them. -/
theorem split_encode {payloads : List Bytes} (hclean : ∀ payload ∈ payloads, newline ∉ payload) :
    split (format.encode payloads) = shown payloads := by
  rw [encode_eq_join]
  induction payloads with
  | nil => rfl
  | cons payload payloads ih =>
    obtain ⟨hpayload, hclean⟩ := List.forall_mem_cons.mp hclean
    cases payloads with
    | nil =>
      -- the last payload has no newline behind it, and an empty one leaves no trace
      show split payload = _
      by_cases hempty : payload = []
      · rw [hempty]
        rfl
      · rw [split_unterminated hpayload hempty, shown, if_neg (by simpa using hempty)]
    | cons next payloads =>
      rw [Bytes.join, split_cons hpayload, ih hclean, shown_cons_cons]

/-! ## The frames of the wire -/

@[simp] theorem strip_nil : strip [] = [] := rfl

/-- A line is its own frame unless it ends in a carriage return. -/
theorem strip_eq_self_iff (line : Bytes) :
    strip line = line ↔ line.getLast? ≠ some carriageReturn := by
  unfold strip
  split
  · rename_i hlast
    have hpos : 0 < line.length := List.length_pos_of_mem (List.mem_of_getLast? hlast)
    refine iff_of_false (fun heq => ?_) fun hne => hne hlast
    have hlen := congrArg List.length heq
    rw [List.length_dropLast] at hlen
    omega
  · rename_i hlast
    exact iff_of_true rfl hlast

/-- **The frames of the wire**, if no payload is too long. -/
theorem frames_encode {payloads : List Bytes} {limit : Nat}
    (hclean : ∀ payload ∈ payloads, newline ∉ payload)
    (hshort : ∀ payload ∈ payloads, (strip payload).length ≤ limit) (skipEmpty : Bool) :
    frames limit skipEmpty (format.encode payloads)
      = .ok (((shown payloads).map strip).filter fun frame => !(frame.isEmpty && skipEmpty)) := by
  rw [frames, split_encode hclean]
  apply collect_eq_ok
  rintro ⟨line, hmem, hlong⟩
  exact absurd (hshort line (shown_subset payloads hmem)) (Nat.not_le.mpr hlong)

/-- Where empty lines are passed over, a last payload without bytes is missed no more than any other
of that kind. -/
theorem filter_shown (payloads : List Bytes) :
    ((shown payloads).map strip).filter (fun frame => !frame.isEmpty)
      = (payloads.map strip).filter fun frame => !frame.isEmpty := by
  unfold shown
  split
  · rename_i hlast
    obtain ⟨front, rfl⟩ := List.getLast?_eq_some_iff.mp hlast
    rw [List.dropLast_concat, List.map_append, List.filter_append, List.map_singleton, strip_nil]
    exact (List.append_nil _).symm
  · rfl

/-- So payloads come back as they were just where none of them does. -/
theorem map_strip_eq_self_iff (payloads : List Bytes) :
    payloads.map strip = payloads
      ↔ ∀ payload ∈ payloads, payload.getLast? ≠ some carriageReturn := by
  have hpointwise := List.map_inj_left (l := payloads) (f := strip) (g := id)
  rw [List.map_id] at hpointwise
  simp only [hpointwise, id_eq, strip_eq_self_iff]

/-- The frames are the payloads themselves just where no payload loses a `\r` and the last one has
bytes. -/
theorem map_strip_shown_eq_self_iff (payloads : List Bytes) :
    (shown payloads).map strip = payloads
      ↔ (∀ payload ∈ payloads, payload.getLast? ≠ some carriageReturn)
        ∧ payloads.getLast? ≠ some [] := by
  rw [← map_strip_eq_self_iff]
  constructor
  · intro heq
    have hlast : payloads.getLast? ≠ some [] := by
      rw [← length_shown_iff, ← List.length_map (f := strip), heq]
    rw [shown, if_neg hlast] at heq
    exact ⟨heq, hlast⟩
  · rintro ⟨heq, hlast⟩
    rw [shown, if_neg hlast]
    exact heq

/-- Of payloads without a `\r` at their ends, those with bytes are the frames that are not empty. -/
theorem frames_encode_skipping {payloads : List Bytes} {limit : Nat}
    (hclean : ∀ payload ∈ payloads, newline ∉ payload)
    (hkept : ∀ payload ∈ payloads, payload.getLast? ≠ some carriageReturn)
    (hshort : ∀ payload ∈ payloads, payload.length ≤ limit) :
    frames limit true (format.encode payloads)
      = .ok (payloads.filter fun payload => !payload.isEmpty) := by
  have hstripped : ∀ payload ∈ payloads, (strip payload).length ≤ limit := by
    intro payload hmem
    rw [(strip_eq_self_iff payload).mpr (hkept payload hmem)]
    exact hshort payload hmem
  rw [frames_encode hclean hstripped]
  simp only [Bool.and_true]
  rw [filter_shown, (map_strip_eq_self_iff payloads).mpr hkept]

/-! ## Round trips -/

/-- A last payload without bytes is ruled out by saying that there is no last one, or that it has
bytes. -/
theorem getLast?_ne_some_nil_iff (payloads : List Bytes) :
    payloads.getLast? ≠ some []
      ↔ payloads = [] ∨ ∃ last, payloads.getLast? = some last ∧ last ≠ [] := by
  cases hlast : payloads.getLast? with
  | none => simpa using List.getLast?_eq_none_iff.mp hlast
  | some last =>
    have hne : payloads ≠ [] := by
      rintro rfl
      cases hlast
    simp [hne]

/-- **What comes back of lines that were written.** A writer on a sink that accepts what comes
leaves the payloads joined by `\n`. However these bytes come to a reader, it gives the payloads in
order, each without one `\r` at its end, but for a last payload without bytes, which does not show;
and if it passes over empty lines, it gives those of them that have bytes. So what comes back is
what was written if and only if no payload ends with `\r` and there is no last payload without
bytes.

No payload holds a `\n`, and none is longer than the reader's limit when its `\r` is taken off. -/
theorem round_trip {σ : Type} [ByteSink σ] [AcceptingSink σ] {sink : σ}
    (hsink : AcceptingSink.Accepts sink) (hempty : AcceptingSink.data sink = [])
    {payloads : List Bytes} {limit : Nat} (hclean : ∀ payload ∈ payloads, newline ∉ payload)
    (hshort : ∀ payload ∈ payloads, (strip payload).length ≤ limit) :
    (FrameWriter.writeFrames payloads (.ofSink sink : FormatWriter format σ)).outcome
        = .ok (Bytes.join newline payloads).length
      ∧ AcceptingSink.data
          (FrameWriter.writeFrames payloads (.ofSink sink : FormatWriter format σ)).state.sink
        = Bytes.join newline payloads
      ∧ ∀ source : Source, source.Delivers (Bytes.join newline payloads) →
        (Cursor.drain (Reader.ofSource source ⟨limit, false⟩)).1
            = .ok ((shown payloads).map strip)
          ∧ (Cursor.drain (Reader.ofSource source ⟨limit, true⟩)).1
            = .ok (((shown payloads).map strip).filter fun frame => !frame.isEmpty)
          ∧ ((Cursor.drain (Reader.ofSource source ⟨limit, false⟩)).1 = .ok payloads
            ↔ (∀ payload ∈ payloads, payload.getLast? ≠ some carriageReturn)
              ∧ (payloads = [] ∨ ∃ last, payloads.getLast? = some last ∧ last ≠ [])) := by
  obtain ⟨htotal, hdata⟩ := FormatWriter.writeFrames_ofSink (f := format) payloads hsink hempty
  rw [encode_eq_join] at htotal hdata
  refine ⟨htotal, hdata, fun source hsource => ?_⟩
  -- both settings at once: only the filter differs
  have hdrain : ∀ skipEmpty, (Cursor.drain (Reader.ofSource source ⟨limit, skipEmpty⟩)).1
      = .ok (((shown payloads).map strip).filter fun frame => !(frame.isEmpty && skipEmpty)) := by
    intro skipEmpty
    rw [Reader.drain_delivers (Reader.delivers_ofSource hsource _), ← encode_eq_join]
    exact frames_encode hclean hshort skipEmpty
  have hkeeping : (Cursor.drain (Reader.ofSource source ⟨limit, false⟩)).1
      = .ok ((shown payloads).map strip) := by
    rw [hdrain false, List.filter_eq_self.mpr fun frame _ => by rw [Bool.and_false, Bool.not_false]]
  refine ⟨hkeeping, ?_, ?_⟩
  · rw [hdrain true]
    simp only [Bool.and_true]
  · rw [hkeeping, Outcome.ok.injEq, map_strip_shown_eq_self_iff, getLast?_ne_some_nil_iff]

/-- Five payloads: one loses its `\r`, one is empty, one has nothing but a `\r`, one has it inside,
and the last is empty. The sink takes them in pieces, and the source delivers them in others. -/
def pieceSink : ScriptedSink :=
  ⟨"sink", [.accept (some 1), .fail (.plain .interrupted "signal"), .accept (some 1)], [], [], [],
    false⟩

def writtenLines : List Bytes := [[97, 13], [], [13], [98, 13, 99], []]

def writtenSource : Source :=
  [.data [97], .data [13, 10, 10, 13], .fail (.plain .interrupted "signal"),
    .data [10, 98, 13, 99, 10], .endOfInput]

theorem round_trip_writtenLines :
    AcceptingSink.data
        (FrameWriter.writeFrames writtenLines
          (.ofSink pieceSink : FormatWriter format _)).state.sink
      = [97, 13, 10, 10, 13, 10, 98, 13, 99, 10]
      ∧ (Cursor.drain (Reader.ofSource writtenSource ⟨3, false⟩)).1
        = .ok [[97], [], [], [98, 13, 99]]
      ∧ (Cursor.drain (Reader.ofSource writtenSource ⟨3, true⟩)).1 = .ok [[97], [98, 13, 99]] := by
  have hsink : AcceptingSink.Accepts pieceSink := by
    refine ⟨rfl, ?_⟩
    simp [pieceSink, WriteRule.Harmless, IoError.plain, IoError.isInterrupted]
  have hsource : writtenSource.Delivers (Bytes.join newline writtenLines) :=
    .data (.data (.interrupted rfl (.data (.ended .nil))))
  have hclean : ∀ payload ∈ writtenLines, newline ∉ payload := by decide
  have hshort : ∀ payload ∈ writtenLines, (strip payload).length ≤ 3 := by decide
  obtain ⟨-, hdata, hback⟩ := round_trip hsink rfl hclean hshort
  obtain ⟨hkeeping, hskipping, -⟩ := hback writtenSource hsource
  exact ⟨hdata, hkeeping, hskipping⟩

end Lines

end MessageFraming
