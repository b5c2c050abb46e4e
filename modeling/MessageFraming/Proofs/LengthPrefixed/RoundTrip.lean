import MessageFraming.Proofs.Frame.Writing
import MessageFraming.Proofs.LengthPrefixed.Reading

/-!
# Round trips, whole and cut

Whatever length-prefixed frames are written, a reader gives them back. Where the wire is cut off, it
gives back the frames in front of the cut, and tells from what is left whether the cut lies between
two frames, inside a prefix, or inside a payload.

* `LengthPrefixed.offset`: where a frame begins on the wire.
* `LengthPrefixed.Cut`: how many whole frames stand in front of a cut. There is just one such number
  (`exists_cut`, `Cut.eq_of_mem`).
* `LengthPrefixed.parse_cut`: what the parser makes of a frame that is cut off; `cutEnding` is that
  for the frame at the cut.
* `LengthPrefixed.cut_detected`: the round trip.
-/

namespace MessageFraming

namespace LengthPrefixed

/-! ## Offsets -/

/-- Where frame `i` begins: behind the `i` frames in front of it. -/
def offset (payloads : List Bytes) (i : Nat) : Nat := (format.encode (payloads.take i)).length

/-- The length of the prefix in front of a payload. -/
def headLength (payload : Bytes) : Nat := (format.head () payload).length

/-- Every frame has a head. -/
theorem headLength_pos (payload : Bytes) : 0 < headLength payload :=
  List.length_pos_iff.mpr (form_head payload).complete.ne_nil

/-- Encodings of two rows of payloads stand one behind the other. -/
theorem encode_append (front back : List Bytes) :
    format.encode (front ++ back) = format.encode front ++ format.encode back :=
  format.encodeFrom_append () front back

/-- The last offset is the length of the whole wire. -/
theorem offset_length (payloads : List Bytes) :
    offset payloads payloads.length = (format.encode payloads).length := by
  rw [offset, List.take_length]

/-- Behind a prefix and its payload the next frame begins. -/
theorem offset_succ {payloads : List Bytes} {i : Nat} (h : i < payloads.length) :
    offset payloads (i + 1)
      = offset payloads i + headLength payloads[i] + payloads[i].length := by
  unfold offset headLength
  rw [List.take_succ_eq_append_getElem h, encode_append, encode_cons, encode_nil]
  simp only [List.length_append, List.length_nil]
  omega

/-- A frame takes at least one byte. -/
theorem offset_lt_succ {payloads : List Bytes} {i : Nat} (h : i < payloads.length) :
    offset payloads i < offset payloads (i + 1) := by
  have hpos := headLength_pos payloads[i]
  rw [offset_succ h]
  omega

/-- Beyond the last frame the offsets stay where they are. -/
theorem offset_le_succ (payloads : List Bytes) (i : Nat) :
    offset payloads i ≤ offset payloads (i + 1) := by
  by_cases h : i < payloads.length
  · exact Nat.le_of_lt (offset_lt_succ h)
  · -- behind the last frame there is no other
    apply Nat.le_of_eq
    unfold offset
    rw [List.take_of_length_le (by omega), List.take_of_length_le (by omega)]

/-- Offsets grow. -/
theorem offset_mono (payloads : List Bytes) {i j : Nat} (h : i ≤ j) :
    offset payloads i ≤ offset payloads j := by
  induction h with
  | refl => exact Nat.le_refl _
  | step _ ih => exact Nat.le_trans ih (offset_le_succ payloads _)

/-! ## Cuts -/

/-- A cut at `k` has `n` whole frames in front of it and no more. -/
structure Cut (payloads : List Bytes) (k n : Nat) : Prop where
  le_length : n ≤ payloads.length
  offset_le : offset payloads n ≤ k
  lt_offset : ∀ i < payloads.length, n ≤ i → k < offset payloads (i + 1)

/-- A cut through the first `m` frames or behind them. Induction on `m`: if the cut is behind frame
`m`, all of them are whole. -/
theorem exists_cut_le {payloads : List Bytes} {k m : Nat} (hk : k ≤ offset payloads m) :
    ∃ n ≤ m, offset payloads n ≤ k ∧ ∀ i < m, n ≤ i → k < offset payloads (i + 1) := by
  induction m with
  | zero => exact ⟨0, Nat.le_refl 0, Nat.zero_le k, fun i hi => absurd hi (Nat.not_lt_zero i)⟩
  | succ m ih =>
    -- the cut is in front of frame `m`, or goes through it, or is behind it
    rcases Nat.lt_or_ge k (offset payloads (m + 1)) with hlt | hge
    · rcases Nat.le_total k (offset payloads m) with hle | hle
      · obtain ⟨n, hn, hoffset, hcut⟩ := ih hle
        refine ⟨n, Nat.le_succ_of_le hn, hoffset, fun i hi hni => ?_⟩
        rcases Nat.lt_succ_iff_lt_or_eq.mp hi with hi | rfl
        · exact hcut i hi hni
        · exact hlt
      · refine ⟨m, Nat.le_succ m, hle, fun i hi hmi => ?_⟩
        rw [Nat.le_antisymm (Nat.lt_succ_iff.mp hi) hmi]
        exact hlt
    · refine ⟨m + 1, Nat.le_refl _, hge, fun i hi hmi => ?_⟩
      exact absurd hi (Nat.not_lt.mpr hmi)

/-- Every cut has some whole frames in front of it. -/
theorem exists_cut {payloads : List Bytes} {k : Nat} (hk : k ≤ (format.encode payloads).length) :
    ∃ n, Cut payloads k n := by
  rw [← offset_length] at hk
  obtain ⟨n, hn, hle, hlt⟩ := exists_cut_le hk
  exact ⟨n, hn, hle, hlt⟩

namespace Cut

variable {payloads : List Bytes} {k n : Nat}

/-- The whole frames are those that end in front of the cut. -/
theorem lt_iff (h : Cut payloads k n) {i : Nat} (hi : i < payloads.length) :
    i < n ↔ offset payloads (i + 1) ≤ k := by
  constructor
  · intro hlt
    exact Nat.le_trans (offset_mono payloads hlt) h.offset_le
  · intro hle
    refine Nat.lt_of_not_le fun hge => ?_
    have hlt := h.lt_offset i hi hge
    omega

/-- The frame that begins in front of a cut and ends behind it is the one behind the whole ones. -/
theorem eq_of_mem (h : Cut payloads k n) {i : Nat} (hi : i < payloads.length)
    (hle : offset payloads i ≤ k) (hlt : k < offset payloads (i + 1)) : i = n := by
  have hge : ¬ i < n := by
    rw [h.lt_iff hi]
    omega
  rcases Nat.lt_or_ge n i with hgt | hle'
  · have hnext := (h.lt_offset n (Nat.lt_trans hgt hi) (Nat.le_refl n))
    have hmono : offset payloads (n + 1) ≤ offset payloads i := offset_mono payloads hgt
    omega
  · omega

/-- A cut is a boundary if it is where the frame behind the whole ones begins. -/
theorem boundary_iff (h : Cut payloads k n) :
    (∃ i ≤ payloads.length, k = offset payloads i) ↔ k = offset payloads n := by
  refine ⟨?_, fun hk => ⟨n, h.le_length, hk⟩⟩
  rintro ⟨i, hi, rfl⟩
  rcases Nat.lt_trichotomy i n with hlt | rfl | hgt
  · have hi := Nat.lt_of_lt_of_le hlt h.le_length
    have hle := (h.lt_iff hi).mp hlt
    exact absurd (offset_lt_succ hi) (Nat.not_lt.mpr hle)
  · rfl
  · have hlt := h.lt_offset n (Nat.lt_of_lt_of_le hgt hi) (Nat.le_refl n)
    exact absurd (offset_mono payloads hgt) (Nat.not_le.mpr hlt)

/-- A cut inside a prefix is inside the one behind the whole frames. -/
theorem inHead_iff (h : Cut payloads k n) :
    (∃ i, ∃ hi : i < payloads.length, offset payloads i < k
        ∧ k < offset payloads i + headLength payloads[i])
      ↔ ∃ hn : n < payloads.length, 0 < k - offset payloads n
        ∧ k - offset payloads n < headLength payloads[n] := by
  constructor
  · rintro ⟨i, hi, hgt, hlt⟩
    have hnext := offset_succ hi
    obtain rfl := h.eq_of_mem hi (Nat.le_of_lt hgt) (by omega)
    exact ⟨hi, by omega, by omega⟩
  · rintro ⟨hn, hgt, hlt⟩
    exact ⟨n, hn, by omega, by omega⟩

/-- A cut inside a payload, or right in front of it, is so for the first that is not whole. -/
theorem inPayload_iff (h : Cut payloads k n) (length : Nat) :
    (∃ i, ∃ hi : i < payloads.length, length = payloads[i].length
        ∧ offset payloads i + headLength payloads[i] ≤ k ∧ k < offset payloads (i + 1))
      ↔ ∃ hn : n < payloads.length, length = payloads[n].length
        ∧ headLength payloads[n] ≤ k - offset payloads n := by
  constructor
  · rintro ⟨i, hi, hlength, hge, hlt⟩
    obtain rfl := h.eq_of_mem hi (by omega) hlt
    exact ⟨hi, hlength, by omega⟩
  · rintro ⟨hn, hlength, hge⟩
    have hle := h.offset_le
    exact ⟨n, hn, hlength, by omega, h.lt_offset n hn (Nat.le_refl n)⟩

end Cut

/-! ## The frame that is cut off -/

/-- What the parser makes of the first `j` bytes of a frame. -/
def cutAnswer (payload : Bytes) (j : Nat) : FrameResult :=
  if j = 0 then .ok none
  else if j < headLength payload then .error .truncatedPrefix
  else .error (.truncated payload.length)

/-- A cut frame reads as the end just where nothing of it is left. -/
theorem cutAnswer_eq_end_iff (payload : Bytes) (j : Nat) :
    cutAnswer payload j = .ok none ↔ j = 0 := by
  unfold cutAnswer
  split
  · simpa
  · split <;> simpa

/-- It reads as a truncated prefix where the cut goes through its head. -/
theorem cutAnswer_eq_truncatedPrefix_iff (payload : Bytes) (j : Nat) :
    cutAnswer payload j = .error .truncatedPrefix ↔ 0 < j ∧ j < headLength payload := by
  unfold cutAnswer
  split
  · simp; omega
  · split <;> simp <;> omega

/-- It reads as truncated where the whole head is left, which tells the length. -/
theorem cutAnswer_eq_truncated_iff (payload : Bytes) (j length : Nat) :
    cutAnswer payload j = .error (.truncated length)
      ↔ length = payload.length ∧ headLength payload ≤ j := by
  have hpos := headLength_pos payload
  unfold cutAnswer
  split
  · simp; omega
  · split <;> simp <;> omega

/-- **A frame that is cut off is recognised.** Only the last byte of a prefix can end it, so the
front of a prefix is never taken for a whole one; and behind a whole one the payload is too
short. -/
theorem parse_cut {payload : Bytes} (hlen : payload.length < UInt64.size) {j : Nat}
    (hj : j < headLength payload + payload.length) (behind : Bytes) :
    (parse maxWord ((format.head () payload ++ payload ++ behind).take j)).1
      = cutAnswer payload j := by
  have hform := form_head payload
  have hvalue := value_head hlen
  unfold cutAnswer
  rw [List.append_assoc]
  by_cases hzero : j = 0
  · rw [if_pos hzero, hzero, List.take_zero, parse_nil]
  rw [if_neg hzero]
  by_cases hhead : j < headLength payload
  · -- inside the prefix
    have hvarint := hform.parse_take (Nat.pos_of_ne_zero hzero) hhead
    rw [if_pos hhead, List.take_append_of_le_length (Nat.le_of_lt hhead),
      parse_malformed maxWord hvarint]
  · -- behind it, and inside the payload
    have hshort : ((payload ++ behind).take (j - headLength payload)).length
        < Varint.value (format.head () payload) := by
      rw [hvalue, List.length_take]
      omega
    have hword : Varint.value (format.head () payload) ≤ maxWord :=
      Nat.le_sub_one_of_lt hform.value_lt
    rw [if_neg hhead, List.take_append, List.take_of_length_le (Nat.not_lt.mp hhead)]
    show (parse maxWord (_ ++ (payload ++ behind).take (j - headLength payload))).1 = _
    rw [parse_form hform, if_neg (Nat.not_lt.mpr hword), if_pos hshort, hvalue]

/-! ## Round trips -/

/-- What is in front of a cut: whole frames, and the front of the next one. -/
theorem take_encode {payloads : List Bytes} {k n : Nat} (h : Cut payloads k n) :
    (format.encode payloads).take k = format.encode (payloads.take n)
      ++ (format.encode (payloads.drop n)).take (k - offset payloads n) := by
  have hwhole : (format.encode (payloads.take n)).length ≤ k := h.offset_le
  have hparts : format.encode payloads
      = format.encode (payloads.take n) ++ format.encode (payloads.drop n) := by
    rw [← encode_append, List.take_append_drop]
  rw [hparts, List.take_append, List.take_of_length_le hwhole]
  rfl

/-- What a reader finds behind the whole frames in front of a cut. -/
def cutEnding (payloads : List Bytes) (k n : Nat) : FrameResult :=
  match payloads[n]? with
  | some payload => cutAnswer payload (k - offset payloads n)
  | none => .ok none

/-- A cut within a frame ends as this frame is cut. -/
theorem cutEnding_of_lt {payloads : List Bytes} {n : Nat} (hn : n < payloads.length) (k : Nat) :
    cutEnding payloads k n = cutAnswer payloads[n] (k - offset payloads n) := by
  rw [cutEnding, List.getElem?_eq_getElem hn]

/-- A cut behind all frames ends as the wire does. -/
theorem cutEnding_length (payloads : List Bytes) (k : Nat) :
    cutEnding payloads k payloads.length = .ok none := by
  rw [cutEnding, List.getElem?_eq_none (Nat.le_refl _)]

namespace Cut

variable {payloads : List Bytes} {k n : Nat}

/-- Only a cut at the very end has no frame behind it. -/
theorem eq_offset_of_eq_length (h : Cut payloads k n) (hk : k ≤ (format.encode payloads).length)
    (hn : n = payloads.length) : k = offset payloads n := by
  rw [← offset_length, ← hn] at hk
  exact Nat.le_antisymm hk h.offset_le

/-- What is left of the frame that was cut parses to its ending. -/
theorem parse_front (h : Cut payloads k n)
    (hlen : ∀ payload ∈ payloads, payload.length < UInt64.size) :
    (parse maxWord ((format.encode (payloads.drop n)).take (k - offset payloads n))).1
      = cutEnding payloads k n := by
  rcases Nat.lt_or_eq_of_le h.le_length with hn | rfl
  · have hlt := h.lt_offset n hn (Nat.le_refl n)
    have hnext := offset_succ hn
    have hle := h.offset_le
    rw [cutEnding_of_lt hn, List.drop_eq_getElem_cons hn, encode_cons]
    exact parse_cut (hlen _ (List.getElem_mem hn)) (by omega) _
  · rw [cutEnding_length, List.drop_length, encode_nil, List.take_nil, parse_nil]

/-- The answers to a cut wire: the whole frames, and then what the front of the next one gives. -/
theorem answers (h : Cut payloads k n)
    (hlen : ∀ payload ∈ payloads, payload.length < UInt64.size) :
    Cursor.answers (n + 1) (⟨(format.encode payloads).take k, maxWord⟩ : Parser)
      = (payloads.take n).map (fun payload => .ok (some payload))
        ++ [cutEnding payloads k n] := by
  have hwire : Wire ((payloads.take n).map (format.head ())) (payloads.take n)
      (format.encode (payloads.take n)) :=
    wire_encode fun payload hmem => hlen payload (List.mem_of_mem_take hmem)
  have hlimit : ∀ payload ∈ payloads.take n, payload.length ≤ maxWord :=
    fun payload hmem => Nat.le_sub_one_of_lt (hlen payload (List.mem_of_mem_take hmem))
  have hcount : (payloads.take n).length = n := by
    rw [List.length_take, Nat.min_eq_left h.le_length]
  -- the frames before the cut are whole on the wire, and one more call meets the cut
  have hanswers := hwire.answers hlimit
    ((format.encode (payloads.drop n)).take (k - offset payloads n)) 1
  rw [hcount, ← take_encode h] at hanswers
  rw [hanswers, ← h.parse_front hlen]
  rfl

/-- The end is read just where the cut is between two frames. -/
theorem ending_eq_end_iff (h : Cut payloads k n) (hk : k ≤ (format.encode payloads).length) :
    cutEnding payloads k n = .ok none ↔ ∃ i ≤ payloads.length, k = offset payloads i := by
  rw [h.boundary_iff]
  rcases Nat.lt_or_eq_of_le h.le_length with hn | hn
  · have hle := h.offset_le
    rw [cutEnding_of_lt hn, cutAnswer_eq_end_iff]
    omega
  · refine iff_of_true ?_ (h.eq_offset_of_eq_length hk hn)
    rw [hn, cutEnding_length]

/-- A truncated prefix is, just where it is within a head. -/
theorem ending_eq_truncatedPrefix_iff (h : Cut payloads k n) :
    cutEnding payloads k n = .error .truncatedPrefix
      ↔ ∃ i, ∃ hi : i < payloads.length, offset payloads i < k
        ∧ k < offset payloads i + headLength payloads[i] := by
  rw [h.inHead_iff]
  rcases Nat.lt_or_eq_of_le h.le_length with hn | rfl
  · rw [cutEnding_of_lt hn, cutAnswer_eq_truncatedPrefix_iff]
    exact ⟨fun hin => ⟨hn, hin⟩, fun ⟨_, hin⟩ => hin⟩
  · rw [cutEnding_length]
    exact iff_of_false (by simp) fun ⟨hlt, _⟩ => Nat.lt_irrefl _ hlt

/-- And a truncated frame just where it is within a payload, or right before it. -/
theorem ending_eq_truncated_iff (h : Cut payloads k n) (declared : Nat) :
    cutEnding payloads k n = .error (.truncated declared)
      ↔ ∃ i, ∃ hi : i < payloads.length, declared = payloads[i].length
        ∧ offset payloads i + headLength payloads[i] ≤ k ∧ k < offset payloads (i + 1) := by
  rw [h.inPayload_iff]
  rcases Nat.lt_or_eq_of_le h.le_length with hn | rfl
  · rw [cutEnding_of_lt hn, cutAnswer_eq_truncated_iff]
    exact ⟨fun hin => ⟨hn, hin⟩, fun ⟨_, hin⟩ => hin⟩
  · rw [cutEnding_length]
    exact iff_of_false (by simp) fun ⟨hlt, _⟩ => Nat.lt_irrefl _ hlt

end Cut

/-- **Every cut is detected.** A writer on a sink that accepts what comes leaves the encoding of its
payloads, and its total is the length of it. However the first `k` bytes of that come to a reader,
it gives just the payloads that are whole among them. Then it finds the end if `k` is where a frame
begins or the last one ends, a truncated prefix if `k` is strictly inside one, and a truncated
payload with its declared length if the prefix is whole and the payload is not. Without a cut all
payloads come back.

Payloads are shorter than `2 ^ 64`, as every string of bytes in a memory is. -/
theorem cut_detected {σ : Type} [ByteSink σ] [AcceptingSink σ] {sink : σ}
    (hsink : AcceptingSink.Accepts sink) (hempty : AcceptingSink.data sink = [])
    {payloads : List Bytes} (hlen : ∀ payload ∈ payloads, payload.length < UInt64.size) :
    (FrameWriter.writeFrames payloads (.ofSink sink : FormatWriter format σ)).outcome
        = .ok (format.encode payloads).length
      ∧ AcceptingSink.data
          (FrameWriter.writeFrames payloads (.ofSink sink : FormatWriter format σ)).state.sink
        = format.encode payloads
      ∧ (∀ k ≤ (format.encode payloads).length, ∀ source : Source,
        source.Delivers ((format.encode payloads).take k) →
        ∃ n ending, n ≤ payloads.length
          ∧ (∀ i < payloads.length, i < n ↔ offset payloads (i + 1) ≤ k)
          ∧ Cursor.answers (n + 1) (Reader.ofSource source maxWord)
            = (payloads.take n).map (fun payload => .ok (some payload)) ++ [ending]
          ∧ (ending = .ok none ↔ ∃ i ≤ payloads.length, k = offset payloads i)
          ∧ (ending = .error .truncatedPrefix
            ↔ ∃ i, ∃ hi : i < payloads.length, offset payloads i < k
              ∧ k < offset payloads i + headLength payloads[i])
          ∧ ∀ declared, ending = .error (.truncated declared)
            ↔ ∃ i, ∃ hi : i < payloads.length, declared = payloads[i].length
              ∧ offset payloads i + headLength payloads[i] ≤ k ∧ k < offset payloads (i + 1))
      ∧ ∀ source : Source, source.Delivers (format.encode payloads) →
          (Cursor.drain (Reader.ofSource source maxWord)).1 = .ok payloads := by
  obtain ⟨htotal, hdata⟩ := FormatWriter.writeFrames_accepts payloads
    (w := (.ofSink sink : FormatWriter format σ)) hsink
  refine ⟨htotal, ?_, ?_, ?_⟩
  · rw [hdata]
    show AcceptingSink.data sink ++ format.encode payloads = _
    rw [hempty, List.nil_append]
  · intro k hk source hsource
    obtain ⟨n, hcut⟩ := exists_cut hk
    refine ⟨n, cutEnding payloads k n, hcut.le_length, fun i hi => hcut.lt_iff hi, ?_,
      hcut.ending_eq_end_iff hk, hcut.ending_eq_truncatedPrefix_iff, hcut.ending_eq_truncated_iff⟩
    rw [(Reader.answers_delivers hsource maxWord _).1, hcut.answers hlen]
  · intro source hsource
    rw [Reader.drain_eq_ok_iff hsource]
    exact ⟨⟨_, wire_encode hlen⟩, fun payload hmem => Nat.le_sub_one_of_lt (hlen payload hmem)⟩

/-- Three frames, one of them without payload, cut off behind the last prefix. -/
def cutSource : Source :=
  [.data [2, 1], .fail (.plain .interrupted "signal"), .data [2, 0, 1], .endOfInput]

theorem cut_detected_cutSource :
    cutSource.Delivers [2, 1, 2, 0, 1]
      ∧ AcceptingSink.data (FrameWriter.writeFrames [[1, 2], [], [3]]
          (.ofSink .empty : FormatWriter format MemorySink)).state.sink = [2, 1, 2, 0, 1, 3]
      ∧ Cursor.answers 3 (Reader.ofSource cutSource maxWord)
        = [.ok (some [1, 2]), .ok (some []), .error (.truncated 1)] := by
  have hsource : cutSource.Delivers [2, 1, 2, 0, 1] :=
    .data (.interrupted rfl (.data (.ended .nil)))
  have hwire : format.encode [[1, 2], [], [3]] = [2, 1, 2, 0, 1, 3] := by decide +kernel
  have hlen : ∀ payload ∈ ([[1, 2], [], [3]] : List Bytes), payload.length < UInt64.size := by
    decide
  have haccepts : AcceptingSink.Accepts MemorySink.empty := trivial
  obtain ⟨-, hdata, hcut, -⟩ := cut_detected haccepts rfl hlen
  rw [hwire] at hdata hcut
  obtain ⟨n, ending, hle, hwhole, hanswers, -, -, htruncated⟩ :=
    hcut 5 (by decide) cutSource hsource
  have hn : n = 2 := by
    have hsecond := (hwhole 1 (by decide)).mpr (by decide +kernel)
    have hthird := mt (hwhole 2 (by decide)).mp (by decide +kernel)
    omega
  have hending := (htruncated 1).mpr ⟨2, by decide, rfl, by decide +kernel, by decide +kernel⟩
  rw [hn, hending] at hanswers
  exact ⟨hsource, hdata, hanswers⟩

end LengthPrefixed

end MessageFraming
