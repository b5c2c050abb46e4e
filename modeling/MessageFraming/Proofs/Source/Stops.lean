import MessageFraming.Proofs.Source.Sights

/-!
# Up to the next stop

Wherever a reader begins, it has bytes in front of it and then a stop. Both are told apart here for
bare and for buffered supplies alike, together with the source that the stop leaves.

* `Shows`: what is in front of a reader up to the next stop. There is no second way to read it off
  (`Shows.unique`).
* `Shows.of_taken`: a reader that took bytes and met no stop took the first of them, and has the
  others in front of it.
* `Shows.gather_full`, `Shows.gather_short`, `Shows.pullByte_cons`, `Shows.pullByte_nil`: the loops
  over a supply take the bytes that are shown, or come to the stop.
* `Source.shows_ahead`: every source shows bytes and then a stop. They can be read off the script
  (`Source.ahead`, `Source.fromStop`).
-/

namespace MessageFraming

/-- Bytes that are taken off a row are some of those that it begins with, since nothing else comes
in front of `ends`. -/
theorem Sight.cut_ofBytes {bytes taken : Bytes} {ends row : List Sight}
    (hends : ∀ b, ends.head? ≠ some (byte b)) (h : ofBytes bytes ++ ends = ofBytes taken ++ row) :
    ∃ left, bytes = taken ++ left ∧ row = ofBytes left ++ ends := by
  induction taken generalizing bytes with
  | nil => exact ⟨bytes, rfl, h.symm⟩
  | cons b taken ih =>
    cases bytes with
    | nil =>
      -- the stop would be a byte
      have hhead : ends = .byte b :: (ofBytes taken ++ row) := h
      exact absurd (by rw [hhead, List.head?_cons]) (hends b)
    | cons c bytes =>
      obtain ⟨hbyte, hrow⟩ := List.cons.inj h
      cases hbyte
      obtain ⟨left, rfl, hleft⟩ := ih hrow
      exact ⟨left, rfl, hleft⟩

section

variable {σ : Type} [ByteSupply σ] [VisibleSupply σ]

open VisibleSupply

/-- A reader of `s` sees `bytes` and then the stop `how`, which leaves it with `behind`. -/
def Shows (s : σ) (bytes : Bytes) (how : Outcome IoError Unit) (behind : Source) : Prop :=
  Passes (sights s) (Sight.ofBytes bytes ++ [.stop how behind]) behind.sights

namespace Shows

variable {s rest : σ} {bytes taken : Bytes} {how how' : Outcome IoError Unit}
  {behind behind' : Source}

/-- Ends of input behind a row do not get in front of its first stop. -/
theorem exists_row (h : Shows s bytes how behind) :
    ∃ n later, sights s ++ List.replicate n Sight.final
      = Sight.ofBytes bytes ++ .stop how behind :: later := by
  obtain ⟨n, hn, -⟩ := h
  refine ⟨n, behind.sights, ?_⟩
  rw [← hn, List.append_assoc, List.singleton_append]

/-- What a supply shows is seen in one way only. -/
theorem unique (h : Shows s bytes how behind) (h' : Shows s taken how' behind') :
    bytes = taken ∧ how = how' ∧ behind = behind' := by
  obtain ⟨n, later, hrow⟩ := h.exists_row
  obtain ⟨m, later', hrow'⟩ := h'.exists_row
  -- with as many ends of input behind them the rows are the same
  have hsame : Sight.ofBytes bytes ++ .stop how behind :: (later ++ List.replicate m Sight.final)
      = Sight.ofBytes taken ++ (.stop how' behind' :: later' ++ List.replicate n Sight.final) := by
    rw [← List.cons_append, ← List.append_assoc, ← hrow, ← List.append_assoc, ← hrow',
      List.append_assoc, List.append_assoc, List.replicate_append_replicate,
      List.replicate_append_replicate, Nat.add_comm]
  obtain ⟨left, rfl, hleft⟩ := Sight.cut_ofBytes (by simp) hsame
  cases left with
  | nil =>
    obtain ⟨hstop, -⟩ := List.cons.inj hleft
    cases hstop
    exact ⟨List.append_nil taken, rfl, rfl⟩
  | cons b left =>
    obtain ⟨hstop, -⟩ := List.cons.inj hleft
    cases hstop

/-- Behind bytes that were taken stand the others. -/
theorem of_taken (h : Shows s bytes how behind)
    (hsights : sights s = Sight.ofBytes taken ++ sights rest) :
    ∃ left, bytes = taken ++ left ∧ Shows rest left how behind := by
  obtain ⟨n, hn, hend⟩ := h
  rw [hsights, List.append_assoc, List.append_assoc, List.singleton_append] at hn
  obtain ⟨left, rfl, hleft⟩ := Sight.cut_ofBytes (by simp) hn
  refine ⟨left, rfl, n, ?_, hend⟩
  rw [hleft, List.append_assoc, List.singleton_append]

/-- Bytes that were seen first belong to those that are shown. -/
theorem of_rest (h : Shows rest bytes how behind)
    (hsights : sights s = Sight.ofBytes taken ++ sights rest) :
    Shows s (taken ++ bytes) how behind :=
  h.behind_bytes hsights

/-! ## Loops over a supply -/

/-- A gathering takes what is shown, if that is enough. -/
theorem gather_full {n : Nat} (h : Shows s bytes how behind) (hn : n ≤ bytes.length) :
    ∃ rest, gather n s = ⟨.ok (), bytes.take n, rest⟩ ∧ Shows rest (bytes.drop n) how behind := by
  rcases gather_sights n s with ⟨taken, rest, hgather, hlen, hsights⟩
    | ⟨taken, how', behind', hgather, hlen, hpasses⟩
  · obtain ⟨left, rfl, hleft⟩ := h.of_taken hsights
    rw [List.take_left' hlen, List.drop_left' hlen]
    exact ⟨rest, hgather, hleft⟩
  · -- the stop comes behind all that is shown
    obtain ⟨rfl, -⟩ := h.unique hpasses
    exact absurd hlen (Nat.not_lt.mpr hn)

/-- Otherwise it takes all of it and comes to the stop. -/
theorem gather_short {n : Nat} (h : Shows s bytes how behind) (hn : bytes.length < n) :
    gather n s = ⟨how, bytes, ofSource behind⟩ := by
  rcases gather_sights n s with ⟨taken, rest, hgather, hlen, hsights⟩
    | ⟨taken, how', behind', hgather, hlen, hpasses⟩
  · obtain ⟨left, rfl, -⟩ := h.of_taken hsights
    rw [List.length_append] at hn
    omega
  · obtain ⟨rfl, rfl, rfl⟩ := h.unique hpasses
    exact hgather

/-- The first byte that is shown can be pulled. -/
theorem pullByte_cons {b : UInt8} (h : Shows s (b :: bytes) how behind) :
    ∃ rest, pullByte s = (.ok (some b), rest) ∧ Shows rest bytes how behind := by
  rcases pullByte_sights s with ⟨c, rest, hpull, hsights⟩ | ⟨how', behind', -, hpasses⟩
  · have htaken : sights s = Sight.ofBytes [c] ++ sights rest := hsights
    obtain ⟨left, hbytes, hleft⟩ := h.of_taken htaken
    cases hbytes
    exact ⟨rest, hpull, hleft⟩
  · have hnone : Shows s [] how' behind' := hpasses
    cases (h.unique hnone).1

/-- Where no byte is shown, the pull meets the stop. -/
theorem pullByte_nil (h : Shows s [] how behind) :
    pullByte s = (how.map fun _ => none, ofSource behind) := by
  rcases pullByte_sights s with ⟨c, rest, -, hsights⟩ | ⟨how', behind', hpull, hpasses⟩
  · have htaken : sights s = Sight.ofBytes [c] ++ sights rest := hsights
    obtain ⟨left, hbytes, -⟩ := h.of_taken htaken
    cases hbytes
  · have hnone : Shows s [] how' behind' := hpasses
    obtain ⟨-, rfl, rfl⟩ := h.unique hnone
    exact hpull

end Shows

end

/-- An interruption is not seen. -/
theorem Shows.of_interrupted {e : IoError} {rest : Source} {bytes : Bytes}
    {how : Outcome IoError Unit} {behind : Source} (he : e.isInterrupted = true)
    (h : Shows rest bytes how behind) : Shows (.fail e :: rest : Source) bytes how behind := by
  have hrow : Source.sights (.fail e :: rest) = Sight.ofBytes [] ++ rest.sights := by
    rw [Source.sights, Source.sightsBefore, if_pos he]
    rfl
  have hnone : Shows (.fail e :: rest : Source) ([] ++ bytes) how behind := h.of_rest hrow
  exact hnone

/-- A failure shows itself at once. -/
theorem Shows.of_failed {e : IoError} (he : e.isInterrupted = false) (rest : Source) :
    Shows (.fail e :: rest : Source) [] (.error e) rest := by
  show Passes (Source.sightsBefore _ _) _ _
  rw [Source.sightsBefore, he]
  exact Source.passes_stop (.error e) rest

namespace Source

/-! ## On the script -/

/-- Whether a read that comes to the event goes no further. -/
def Event.isStop : Event → Bool
  | .data _ => false
  | .fail e => !e.isInterrupted
  | .endOfInput => true
  | .crash _ => true

/-- What a read is told that stops there. -/
def Event.outcome : Event → Outcome IoError Unit
  | .fail e => .error e
  | .crash message => .crash message
  | .data _ => .ok ()
  | .endOfInput => .ok ()

/-- The bytes in front of the first stop. -/
def ahead (s : Source) : Bytes := data (s.takeWhile fun event => !event.isStop)

/-- The first stop and all events behind it. -/
def fromStop (s : Source) : Source := s.dropWhile fun event => !event.isStop

/-- What a read is told at the first stop. Behind the script there is the end of input. -/
def stopOutcome (s : Source) : Outcome IoError Unit :=
  match s.fromStop with
  | [] => .ok ()
  | stop :: _ => stop.outcome

theorem ahead_data (bytes : Bytes) (rest : Source) :
    ahead (.data bytes :: rest) = bytes ++ rest.ahead := rfl

theorem ahead_interrupted {e : IoError} (he : e.isInterrupted = true) (rest : Source) :
    ahead (.fail e :: rest) = rest.ahead := by
  simp [ahead, Event.isStop, he, data]

theorem fromStop_interrupted {e : IoError} (he : e.isInterrupted = true) (rest : Source) :
    fromStop (.fail e :: rest) = rest.fromStop := by
  simp [fromStop, Event.isStop, he]

theorem ahead_stop {event : Event} (hstop : event.isStop = true) (rest : Source) :
    ahead (event :: rest) = [] := by
  simp [ahead, hstop, data]

theorem fromStop_stop {event : Event} (hstop : event.isStop = true) (rest : Source) :
    fromStop (event :: rest) = event :: rest := by
  simp [fromStop, hstop]

theorem stopOutcome_congr {s s' : Source} (h : s.fromStop = s'.fromStop) :
    s.stopOutcome = s'.stopOutcome := by
  rw [stopOutcome, h, stopOutcome]

/-- **The bytes up to the first stop are what a source shows.** Induction on the script. -/
theorem shows_ahead (s : Source) : Shows s s.ahead s.stopOutcome s.fromStop.tail := by
  induction s with
  | nil => exact ⟨1, rfl, Or.inr rfl⟩
  | cons event rest ih =>
    cases event with
    | data bytes => exact ih.of_rest rfl
    | fail e =>
      cases he : e.isInterrupted with
      | true =>
        rw [ahead_interrupted he, stopOutcome_congr (fromStop_interrupted he rest),
          fromStop_interrupted he]
        -- an interruption is not seen
        exact ih.of_interrupted he
      | false =>
        have hstop : (Event.fail e).isStop = true := by simp [Event.isStop, he]
        rw [ahead_stop hstop, stopOutcome, fromStop_stop hstop]
        exact .of_failed he rest
    | endOfInput => exact passes_stop (.ok ()) rest
    | crash message => exact passes_stop (.crash message) rest

end Source

/-- A buffered source always shows something. -/
theorem BufferedSource.exists_shows (s : BufferedSource) :
    ∃ bytes how behind, Shows s bytes how behind := by
  have hsource := s.source.shows_ahead
  exact ⟨s.buffer ++ s.source.ahead, _, _, hsource.behind_bytes rfl⟩

end MessageFraming
