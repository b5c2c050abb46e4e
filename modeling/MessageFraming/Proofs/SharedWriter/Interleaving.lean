import MessageFraming.Proofs.Merge
import MessageFraming.Proofs.SharedWriter.Calls
import MessageFraming.Proofs.LengthPrefixed.RoundTrip
import MessageFraming.Proofs.Lines.RoundTrip

/-!
# Frames of many producers

A frame is not written in one step: the sink takes its head and its payload piece by piece, and the
other producers go on in between. Still the wire looks as if one writer had written one list of
payloads. The reason is the lock, and all that has to be known of it is `Producers.Guarded`: only
the producer that holds it has a frame on its way.

* `Producers.Orderly`: the frames begun so far are a front of a merge of the producers' payloads
  (`Merge`). The wire is their encoding, but for what is left of the one frame on its way.
* `Producers.Step.orderly`: every step keeps that, and so does every interleaving
  (`Producers.Reachable.orderly`).
* `Producers.frames_never_mix`: so, once all have finished, the wire is the encoding of a merge.
-/

namespace MessageFraming

namespace WireFormat

variable (f : WireFormat)

/-- A further frame is written in the state that the others have led to. -/
theorem encode_concat (payloads : List Bytes) (payload : Bytes) :
    f.encode (payloads ++ [payload])
      = f.encode payloads ++ f.frame (f.stateAfter f.start payloads) payload := by
  rw [encode, encodeFrom_append]
  show _ ++ (_ ++ []) = _
  rw [List.append_nil]
  rfl

end WireFormat

namespace Producers

variable {f : WireFormat} {lists : List (List Bytes)} {s s' : Producers f}

/-! ## One producer goes on -/

/-- What producer `i` has counted is one summand of the total. -/
theorem total_set {i : Nat} {p q : Producer} (hp : s.producers[i]? = some p) :
    (s.set i q).total + p.total = s.total + q.total := by
  unfold total set
  generalize s.producers = producers at hp
  induction producers generalizing i with
  | nil => cases hp
  | cons first producers ih =>
    cases i with
    -- the producer that is replaced stands in front
    | zero =>
      cases hp
      simp only [List.set_cons_zero, List.foldr_cons]
      omega
    | succ i =>
      rw [List.getElem?_cons_succ] at hp
      have hrest := ih hp
      simp only [List.set_cons_succ, List.foldr_cons] at hrest ⊢
      omega

/-- Only the end of a write changes the total. -/
theorem total_set_of_same {i total : Nat} {payloads payloads' : List Bytes}
    {frame? frame?' : Option FrameInFlight}
    (hp : s.producers[i]? = some ⟨payloads, frame?, total⟩) :
    (s.set i ⟨payloads', frame?', total⟩).total = s.total := by
  have htotal := total_set (q := ⟨payloads', frame?', total⟩) hp
  exact Nat.add_right_cancel htotal

/-- A producer that moves within its frame has the same payloads left. -/
theorem payloads_set {i total total' : Nat} {payloads : List Bytes}
    {frame? frame?' : Option FrameInFlight}
    (hp : s.producers[i]? = some ⟨payloads, frame?, total⟩) :
    (s.set i ⟨payloads, frame?', total'⟩).producers.map (·.payloads)
      = s.producers.map (·.payloads) := by
  have hi : (s.producers.map (·.payloads))[i]? = some payloads := by
    rw [List.getElem?_map, hp]
    rfl
  show (s.producers.set i _).map (·.payloads) = _
  rw [List.map_set]
  obtain ⟨hlt, heq⟩ := List.getElem?_eq_some_iff.mp hi
  show (s.producers.map (·.payloads)).set i payloads = _
  rw [← heq, List.set_getElem_self]

/-! ## The lock -/

/-- Nobody but producer `i` has a frame on its way. -/
def OthersIdle (i : Nat) (s : Producers f) : Prop :=
  ∀ (j : Nat) (p : Producer), j ≠ i → s.producers[j]? = some p → p.frame = none

/-- Whatever the producer itself does, the others are idle. -/
theorem OthersIdle.set {i : Nat} (h : OthersIdle i s) (p : Producer) :
    OthersIdle i (s.set i p) := by
  intro j q hj hq
  rw [Producers.set, List.getElem?_set_ne hj.symm] at hq
  exact h j q hj hq

/-- What the lock guards: the frame on its way, which is that of the holder. -/
inductive Guarded (s : Producers f) : Option FrameInFlight → Prop where
  | free (hfree : s.holder = none)
      (hidle : ∀ (i : Nat) (p : Producer), s.producers[i]? = some p → p.frame = none) :
      Guarded s none
  | held {i : Nat} {p : Producer} {frame : FrameInFlight} (hheld : s.holder = some i)
      (hp : s.producers[i]? = some p) (hframe : p.frame = some frame) (hothers : OthersIdle i s) :
      Guarded s (some frame)

/-- Whoever has a frame on its way holds the lock. -/
theorem Guarded.of_frame {frame? : Option FrameInFlight} (h : Guarded s frame?) {i total : Nat}
    {payloads : List Bytes} {frame : FrameInFlight}
    (hp : s.producers[i]? = some ⟨payloads, some frame, total⟩) :
    frame? = some frame ∧ s.holder = some i ∧ OthersIdle i s := by
  cases h with
  | free hfree hidle => cases hidle i _ hp
  | @held j p frame' hheld hj hframe hothers =>
    by_cases hij : i = j
    · subst hij
      rw [hp] at hj
      cases hj
      exact ⟨hframe.symm, hheld, hothers⟩
    · cases hothers i _ hij hp

/-! ## Interleavings -/

/-- What the sink has still to take of a frame. -/
def unwritten : Option FrameInFlight → Bytes
  | none => []
  | some frame => frame.parts.flatten

/-- What the write of a frame has still to return. -/
def unreturned : Option FrameInFlight → Nat
  | none => 0
  | some frame => frame.size

/-- The writes of `begun` have begun, in this order, and all but the one on its way have ended. -/
structure Orderly (lists : List (List Bytes)) (begun : List Bytes) (s : Producers f) : Prop where
  /-- A merge of what is left to write completes `begun` to a merge of everything. -/
  merge : ∀ merged, Merge (s.producers.map (·.payloads)) merged → Merge lists (begun ++ merged)
  state : s.state = f.stateAfter f.start begun
  onItsWay : ∃ frame?, Guarded s frame? ∧ f.encode begun = s.wire ++ unwritten frame?
    ∧ (f.encode begun).length = s.total + unreturned frame?

/-- Nothing was begun, and nothing is on its way. -/
theorem orderly_start (f : WireFormat) (lists : List (List Bytes)) :
    Orderly lists [] (start f lists) where
  merge merged h := by
    have hlists : (start f lists).producers.map (·.payloads) = lists := by
      show (lists.map Producer.ofPayloads).map (·.payloads) = lists
      rw [List.map_map]
      exact List.map_id lists
    rwa [hlists] at h
  state := rfl
  onItsWay := by
    refine ⟨none, .free rfl fun i p hp => ?_, rfl, ?_⟩
    · have hmem := List.mem_of_getElem? hp
      obtain ⟨list, -, rfl⟩ := List.mem_map.mp hmem
      rfl
    · -- nobody has counted anything
      show 0 = (lists.map Producer.ofPayloads).foldr (fun p n => p.total + n) 0 + 0
      induction lists with
      | nil => rfl
      | cons list lists ih =>
        rw [List.map_cons, List.foldr_cons, Nat.add_assoc, ← ih]
        rfl

/-- A producer that begins no write keeps the merge. -/
theorem Orderly.merge_set {begun payloads : List Bytes} (h : Orderly lists begun s)
    {i total total' : Nat} {frame? frame?' : Option FrameInFlight}
    (hp : s.producers[i]? = some ⟨payloads, frame?, total⟩) {merged : List Bytes}
    (hmerged : Merge ((s.set i ⟨payloads, frame?', total'⟩).producers.map (·.payloads)) merged) :
    Merge lists (begun ++ merged) := by
  rw [payloads_set hp] at hmerged
  exact h.merge merged hmerged

/-- A producer that begins a write puts its next payload behind those begun. -/
theorem Orderly.merge_take {begun payloads : List Bytes} (h : Orderly lists begun s)
    {i total : Nat} {payload : Bytes} {frame? frame?' : Option FrameInFlight}
    (hp : s.producers[i]? = some ⟨payload :: payloads, frame?, total⟩) {merged : List Bytes}
    (hmerged : Merge ((s.set i ⟨payloads, frame?', total⟩).producers.map (·.payloads)) merged) :
    Merge lists (begun ++ [payload] ++ merged) := by
  have hpayload : (s.producers.map (·.payloads))[i]? = some (payload :: payloads) := by
    rw [List.getElem?_map, hp]
    rfl
  rw [show (s.set i _).producers = s.producers.set i _ from rfl, List.map_set] at hmerged
  rw [List.append_assoc]
  exact h.merge _ (.next hpayload hmerged)

/-- **A step keeps the order.** Taking the lock begins a frame; all other steps are the holder's,
and move bytes of its frame from what is unwritten to the wire. -/
theorem Step.orderly {begun : List Bytes} (hstep : Step s s') (h : Orderly lists begun s) :
    ∃ begun', Orderly lists begun' s' := by
  obtain ⟨frame?, hguard, hwire, hlength⟩ := h.onItsWay
  cases hstep with
  -- a frame begins: its payload comes next in the merge
  | @take i payload payloads total hfree hp =>
    cases hguard with
    | held hheld => rw [hfree] at hheld; cases hheld
    | free _ hidle =>
    refine ⟨begun ++ [payload], ⟨fun _ hmerged => h.merge_take hp hmerged, ?_, ?_⟩⟩
    · show f.next s.state = _
      rw [f.stateAfter_concat, h.state]
    · -- the lock was free, so nobody else has a frame on its way
      have hothers : OthersIdle i s := fun j p _ hj => hidle j p hj
      refine ⟨_, .held rfl (set_self hp) rfl (hothers.set _), ?_, ?_⟩
      · rw [f.encode_concat, hwire, ← h.state]
        show s.wire ++ [] ++ (f.head s.state payload ++ payload)
          = s.wire ++ (f.head s.state payload ++ (payload ++ []))
        rw [List.append_nil, List.append_nil]
      · rw [f.encode_concat, List.length_append, hlength, ← h.state]
        show s.total + 0 + _ = (s.set i _).total + (f.frame s.state payload).length
        rw [total_set_of_same hp, Nat.add_zero]
  -- bytes move from what is unwritten to the wire
  | @write i n size total part parts payloads hp hpos hle =>
    obtain ⟨rfl, hheld, hothers⟩ := hguard.of_frame hp
    refine ⟨begun, ⟨fun _ hmerged => h.merge_set hp hmerged, h.state, ?_⟩⟩
    refine ⟨_, .held hheld (set_self hp) rfl (hothers.set _), ?_, ?_⟩
    · rw [hwire]
      show s.wire ++ (part ++ parts.flatten)
        = s.wire ++ part.take n ++ (part.drop n ++ parts.flatten)
      rw [List.append_assoc, ← List.append_assoc (part.take n), List.take_append_drop]
    · show _ = (s.set i _).total + size
      rw [total_set_of_same hp, hlength]
      rfl
  -- a part that is written in full has nothing left
  | @advance i size total parts payloads hp =>
    obtain ⟨rfl, hheld, hothers⟩ := hguard.of_frame hp
    refine ⟨begun, ⟨fun _ hmerged => h.merge_set hp hmerged, h.state, ?_⟩⟩
    refine ⟨_, .held hheld (set_self hp) rfl (hothers.set _), hwire, ?_⟩
    show _ = (s.set i _).total + size
    rw [total_set_of_same hp, hlength]
    rfl
  -- the frame is counted, and nothing is on its way
  | @release i size total payloads hp =>
    obtain ⟨rfl, hheld, hothers⟩ := hguard.of_frame hp
    refine ⟨begun, ⟨fun _ hmerged => h.merge_set hp hmerged, h.state, none, ?_, hwire, ?_⟩⟩
    · refine .free rfl fun j p hj => ?_
      by_cases hij : j = i
      · subst hij
        rw [show _ = some _ from set_self hp] at hj
        cases hj
        rfl
      · exact hothers.set _ j p hij hj
    · show _ = (s.set i ⟨payloads, none, total + size⟩).total + 0
      have htotal := total_set (q := ⟨payloads, none, total + size⟩) hp
      rw [hlength]
      show s.total + size = _
      have htotal' : (s.set i ⟨payloads, none, total + size⟩).total + total
        = s.total + (total + size) := htotal
      omega

/-- An interleaving keeps the order. Induction on it. -/
theorem Reachable.orderly (h : Reachable f lists s) : ∃ begun, Orderly lists begun s := by
  induction h with
  | start => exact ⟨[], orderly_start f lists⟩
  | step _ hstep ih =>
    obtain ⟨begun, hbegun⟩ := ih
    exact hstep.orderly hbegun

/-! ## The wire when all have finished -/

theorem isDone_iff : s.isDone ↔ ∀ p ∈ s.producers, p.payloads = [] ∧ p.frame = none := by
  simp [isDone, Producer.isDone, List.all_eq_true]

/-- `merged` is what stands on the wire: it is a merge of what the producers had to write, and what
they count for it is what it takes. -/
structure Carries (s : Producers f) (lists : List (List Bytes)) (merged : List Bytes) : Prop where
  merge : Merge lists merged
  /-- Every payload just as often as it was to be written. -/
  perm : merged.Perm lists.flatten
  /-- The payloads of each producer in its order. -/
  sublist : ∀ list ∈ lists, list.Sublist merged
  wire : s.wire = f.encode merged
  total : s.total = s.wire.length

/-- When all have finished, nothing is left to merge and nothing is on its way. -/
theorem Orderly.carries {begun : List Bytes} (h : Orderly lists begun s) (hdone : s.isDone) :
    s.Carries lists begun := by
  rw [isDone_iff] at hdone
  obtain ⟨frame?, hguard, hwire, hlength⟩ := h.onItsWay
  -- nothing is left to merge
  have hmerge : Merge lists begun := by
    rw [← List.append_nil begun]
    refine h.merge [] (.done fun payloads hmem => ?_)
    obtain ⟨p, hp, rfl⟩ := List.mem_map.mp hmem
    exact (hdone p hp).1
  cases hguard with
  -- nobody holds the lock any more
  | held _ hp hframe =>
    rw [(hdone _ (List.mem_of_getElem? hp)).2] at hframe
    cases hframe
  | free _ _ =>
    have hall : f.encode begun = s.wire := hwire.trans (List.append_nil _)
    refine ⟨hmerge, hmerge.perm, fun _ hmem => hmerge.sublist hmem, hall.symm, ?_⟩
    rw [← hall, hlength]
    rfl

/-- **Frames never mix.** However the producers of a writer come in between each other, and in
whatever pieces the sink takes a head and a payload, once all have finished there is one list of
payloads that is on the wire: a merge of theirs, in which each keeps its order and nothing is lost
or written twice. What their calls returned adds up to the length of the wire.

So a reader of length-prefixed frames gives just this merge, whatever its limit, if that lets all
payloads pass; and the wire of lines is this merge joined by `\n`, whoever wrote the first of them.

The steps are those of real calls: where nobody holds the lock of a writer, a producer that writes
all it has left through it goes a row of steps, and counts for them what the call returns. -/
theorem frames_never_mix (lists : List (List Bytes)) :
    (∀ (f : WireFormat) (s : Producers f), Reachable f lists s → s.isDone →
        ∃ merged, s.Carries lists merged)
      ∧ (∀ limit ≤ maxWord, (∀ list ∈ lists, ∀ payload ∈ list, payload.length ≤ limit) →
        ∀ s : Producers LengthPrefixed.format, Reachable _ lists s → s.isDone →
          ∃ merged, s.Carries lists merged ∧ ∀ source : Source, source.Delivers s.wire →
            (Cursor.drain (LengthPrefixed.Reader.ofSource source limit)).1 = .ok merged)
      ∧ (∀ s : Producers Lines.format, Reachable _ lists s → s.isDone →
          ∃ merged, s.Carries lists merged ∧ s.wire = Bytes.join newline merged)
      ∧ ∀ (f : WireFormat) (s : Producers f) {σ : Type} [ByteSink σ] [AcceptingSink σ]
          (w : SharedWriter (FormatWriter f σ)) (via : Access) (i total : Nat)
          (payloads : List Bytes), s.WrittenBy w → s.holder = none →
        s.producers[i]? = some ⟨payloads, none, total⟩ →
          ∃ count next calls s', w.writeFrames via payloads = ⟨.ok count, next, calls⟩
            ∧ s'.producers = s.producers.set i ⟨[], none, total + count⟩ ∧ s'.holder = none
            ∧ s'.WrittenBy next ∧ Relation.ReflTransGen Step s s' := by
  have hcarries : ∀ (f : WireFormat) (s : Producers f), Reachable f lists s → s.isDone →
      ∃ merged, s.Carries lists merged := by
    intro f s hs hdone
    obtain ⟨begun, hbegun⟩ := hs.orderly
    exact ⟨begun, hbegun.carries hdone⟩
  refine ⟨hcarries, fun limit hlimit hfits s hs hdone => ?_, fun s hs hdone => ?_,
    fun f s _ _ _ w via i total payloads hw hfree hp => steps_writeFrames via hp hfree hw⟩
  · obtain ⟨merged, h⟩ := hcarries _ s hs hdone
    -- the limit lets every payload pass, and so it does for the merge
    have hpass : ∀ payload ∈ merged, payload.length ≤ limit := by
      intro payload hmem
      obtain ⟨list, hlist, hpayload⟩ := List.mem_flatten.mp (h.perm.subset hmem)
      exact hfits list hlist payload hpayload
    have hword : ∀ payload ∈ merged, payload.length < UInt64.size := fun payload hmem =>
      Nat.lt_of_le_of_lt (Nat.le_trans (hpass payload hmem) hlimit) (Nat.sub_one_lt (by decide))
    refine ⟨merged, h, fun source hsource => ?_⟩
    rw [h.wire] at hsource
    rw [LengthPrefixed.Reader.drain_eq_ok_iff hsource]
    exact ⟨⟨_, LengthPrefixed.wire_encode hword⟩, hpass⟩
  · obtain ⟨merged, h⟩ := hcarries _ s hs hdone
    exact ⟨merged, h, h.wire.trans (Lines.encode_eq_join merged)⟩

/-- Two producers. The second one is first to take the lock, and the payload of the other is taken
byte by byte. -/
def twoLists : List (List Bytes) := [[[1, 2]], [[3]]]

def writtenLines : Producers Lines.format :=
  ⟨[⟨[], none, 3⟩, ⟨[], none, 1⟩], none, true, [3, 10, 1, 2]⟩

theorem reachable_writtenLines : Reachable Lines.format twoLists writtenLines := by
  have h : Reachable Lines.format twoLists
      ⟨[⟨[[1, 2]], none, 0⟩, ⟨[[3]], none, 0⟩], none, false, []⟩ := .start
  -- the second producer writes its frame, which has no separator in front
  have h : Reachable Lines.format twoLists
      ⟨[⟨[[1, 2]], none, 0⟩, ⟨[], some ⟨[[], [3]], 1⟩, 0⟩], some 1, true, []⟩ :=
    (h.step (.take (i := 1) rfl rfl) :)
  have h : Reachable Lines.format twoLists
      ⟨[⟨[[1, 2]], none, 0⟩, ⟨[], some ⟨[[3]], 1⟩, 0⟩], some 1, true, []⟩ :=
    (h.step (.advance (i := 1) rfl) :)
  have h : Reachable Lines.format twoLists
      ⟨[⟨[[1, 2]], none, 0⟩, ⟨[], some ⟨[[]], 1⟩, 0⟩], some 1, true, [3]⟩ :=
    (h.step (.write (i := 1) (n := 1) rfl (by decide) (by decide)) :)
  have h : Reachable Lines.format twoLists
      ⟨[⟨[[1, 2]], none, 0⟩, ⟨[], some ⟨[], 1⟩, 0⟩], some 1, true, [3]⟩ :=
    (h.step (.advance (i := 1) rfl) :)
  have h : Reachable Lines.format twoLists
      ⟨[⟨[[1, 2]], none, 0⟩, ⟨[], none, 1⟩], none, true, [3]⟩ :=
    (h.step (.release (i := 1) rfl) :)
  -- the first one writes the separator, and then its payload byte by byte
  have h : Reachable Lines.format twoLists
      ⟨[⟨[], some ⟨[[10], [1, 2]], 3⟩, 0⟩, ⟨[], none, 1⟩], some 0, true, [3]⟩ :=
    (h.step (.take (i := 0) rfl rfl) :)
  have h : Reachable Lines.format twoLists
      ⟨[⟨[], some ⟨[[], [1, 2]], 3⟩, 0⟩, ⟨[], none, 1⟩], some 0, true, [3, 10]⟩ :=
    (h.step (.write (i := 0) (n := 1) rfl (by decide) (by decide)) :)
  have h : Reachable Lines.format twoLists
      ⟨[⟨[], some ⟨[[1, 2]], 3⟩, 0⟩, ⟨[], none, 1⟩], some 0, true, [3, 10]⟩ :=
    (h.step (.advance (i := 0) rfl) :)
  have h : Reachable Lines.format twoLists
      ⟨[⟨[], some ⟨[[2]], 3⟩, 0⟩, ⟨[], none, 1⟩], some 0, true, [3, 10, 1]⟩ :=
    (h.step (.write (i := 0) (n := 1) rfl (by decide) (by decide)) :)
  have h : Reachable Lines.format twoLists
      ⟨[⟨[], some ⟨[[]], 3⟩, 0⟩, ⟨[], none, 1⟩], some 0, true, [3, 10, 1, 2]⟩ :=
    (h.step (.write (i := 0) (n := 1) rfl (by decide) (by decide)) :)
  have h : Reachable Lines.format twoLists
      ⟨[⟨[], some ⟨[], 3⟩, 0⟩, ⟨[], none, 1⟩], some 0, true, [3, 10, 1, 2]⟩ :=
    (h.step (.advance (i := 0) rfl) :)
  exact (h.step (.release (i := 0) rfl) :)

theorem frames_never_mix_twoLists :
    (∃ merged, writtenLines.Carries twoLists merged ∧ [3, 10, 1, 2] = Bytes.join newline merged)
      ∧ (∃ (s : Producers LengthPrefixed.format) (merged : List Bytes),
        s.Carries twoLists merged
          ∧ (Cursor.drain (LengthPrefixed.Reader.ofSource [.data s.wire] 2)).1 = .ok merged)
      ∧ ∃ count next calls s',
        (SharedWriter.ofWriter (FormatWriter.ofSink MemorySink.empty)).writeFrames .reference
            [[1, 2]] = (⟨.ok count, next, calls⟩
              : Reply (SharedWriter (FormatWriter LengthPrefixed.format MemorySink)) _ _)
          ∧ s'.producers = [⟨[], none, count⟩, ⟨[[3]], none, 0⟩]
          ∧ Relation.ReflTransGen Step (start LengthPrefixed.format twoLists) s' := by
  have hlimit : 2 ≤ maxWord := by decide
  have hfits : ∀ list ∈ twoLists, ∀ payload ∈ list, payload.length ≤ 2 := by decide
  obtain ⟨-, hframes, hlines, hcalls⟩ := frames_never_mix twoLists
  obtain ⟨s, hs, hdone⟩ := exists_done LengthPrefixed.format twoLists
  obtain ⟨merged, hcarries, hdrain⟩ := hframes 2 hlimit hfits s hs hdone
  obtain ⟨count, next, calls, s', hcall, hproducers, -, -, hsteps⟩ :=
    hcalls LengthPrefixed.format _ _ .reference 0 0 [[1, 2]] (writtenBy_start _ twoLists) rfl rfl
  rw [Nat.zero_add] at hproducers
  exact ⟨hlines writtenLines reachable_writtenLines rfl,
    ⟨s, merged, hcarries, hdrain _ (Source.delivers_data s.wire)⟩,
    count, next, calls, s', hcall, hproducers, hsteps⟩

end Producers

end MessageFraming
