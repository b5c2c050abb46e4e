import MessageFraming.Proofs.Source.Stops
import Mathlib.Logic.Function.Iterate

/-!
# Reading an exact number of bytes

A reader that asks for `n` bytes gets them in pieces, with interruptions in between, and asks again
until it has them. What it gets and what it leaves depend on the pieces no more than on how often it
asked: bytes stand in front of it up to a stop, and it takes the first `n` of them or comes to the
stop.

* `Source.dropBytes n`: the source right behind its next `n` bytes. If there are that many ahead,
  what is left of the script begins within the piece that held the last of them, or behind it
  (`dropBytes_cut`).
* `Source.gather_of_le`: what the source shows is taken, and what is left is the source behind it.
* `Source.readExact_of_le`, `Source.readExact_of_lt`: the loop over pulls takes all that it wants,
  or all that there is and the stop. `Source.reads_exactly` puts this together.
-/

namespace MessageFraming

namespace Source

/-! ## Behind some bytes -/

/-- The source right behind its next byte. What stands in front of that byte is gone. -/
def dropByte : Source → Source
  | [] => []
  | .data (_ :: bytes) :: rest => unread bytes rest
  | _ :: rest => dropByte rest

/-- The source right behind its next `n` bytes. -/
def dropBytes (n : Nat) (s : Source) : Source := dropByte^[n] s

theorem dropBytes_succ (n : Nat) (s : Source) :
    dropBytes (n + 1) s = dropBytes n (dropByte s) := rfl

/-- Two drops are one. -/
theorem dropBytes_dropBytes (n m : Nat) (s : Source) :
    dropBytes m (dropBytes n s) = dropBytes (n + m) s := by
  rw [Nat.add_comm]
  exact (Function.iterate_add_apply dropByte m n s).symm

/-- What stands in front of the next byte makes no difference behind it. -/
theorem dropBytes_congr {n : Nat} (hn : 0 < n) {s s' : Source} (h : dropByte s = dropByte s') :
    dropBytes n s = dropBytes n s' := by
  obtain ⟨m, rfl⟩ := Nat.exists_eq_succ_of_ne_zero (Nat.ne_of_gt hn)
  rw [dropBytes_succ, dropBytes_succ, h]

/-- Bytes of one piece are dropped from that piece. -/
theorem dropBytes_unread {n : Nat} {bytes : Bytes} (hn : n ≤ bytes.length) (rest : Source) :
    dropBytes n (unread bytes rest) = unread (bytes.drop n) rest := by
  induction n generalizing bytes with
  | zero => rfl
  | succ n ih =>
    cases bytes with
    | nil => exact absurd hn (Nat.not_succ_le_zero n)
    | cons b bytes => exact ih (Nat.le_of_succ_le_succ hn)

/-! ## The loop -/

/-- A pull that takes something leaves the source right behind it. Induction on the script. -/
theorem pull_eq_dropBytes {n : Nat} {s next : Source} {b : UInt8} {bs : Bytes}
    (h : s.pull n = (.ok (b :: bs), next)) : next = dropBytes (bs.length + 1) s := by
  induction s with
  | nil =>
    rw [pull_nil] at h
    cases h
  | cons event rest ih =>
    cases event with
    | data bytes =>
      cases bytes with
      | nil =>
        rw [pull_data_nil] at h
        rw [ih h]
        exact (dropBytes_congr (Nat.succ_pos bs.length) rfl).symm
      | cons c cs =>
        -- the piece is cut where the pull has enough, or taken as a whole
        rw [pull_data_cons] at h
        obtain ⟨hpiece, rfl⟩ := Prod.mk.inj h
        have hlen : bs.length + 1 = min n (c :: cs).length := by
          rw [← List.length_take, Outcome.ok.inj hpiece, List.length_cons]
        have hcut : dropBytes (min n (c :: cs).length) (unread (c :: cs) rest)
            = unread ((c :: cs).drop (min n (c :: cs).length)) rest :=
          dropBytes_unread (Nat.min_le_right _ _) rest
        rw [hlen, List.drop_eq_drop_min]
        exact hcut.symm
    | fail e =>
      rw [pull_fail] at h
      split at h
      · rw [ih h]
        exact (dropBytes_congr (Nat.succ_pos bs.length) rfl).symm
      · cases h
    | endOfInput =>
      rw [pull_endOfInput] at h
      cases h
    | crash message =>
      rw [pull_crash] at h
      cases h

/-- So do pulls that take all that is wanted. Induction on the row of them. -/
theorem left_of_gathers {n : Nat} {s rest : Source} {got : Bytes} {how : Outcome IoError Unit}
    (h : Gathers n s got how rest) (hfull : got.length = n) : rest = dropBytes n s := by
  induction h with
  | enough s => rfl
  | stopped hn _ => exact absurd hfull (Nat.ne_of_lt hn)
  | @piece n s next rest b bs got how hn hpull _ ih =>
    -- what is still wanted is counted from behind the piece
    rw [List.length_append, List.length_cons] at hfull
    have hlater : got.length = n - (bs.length + 1) := by omega
    have hsplit : bs.length + 1 + (n - (bs.length + 1)) = n := by omega
    rw [ih hlater, pull_eq_dropBytes hpull, dropBytes_dropBytes, hsplit]

/-- What is shown and wanted is taken, and the source is left right behind it. -/
theorem gather_of_le {n : Nat} {s : Source} (hn : n ≤ s.ahead.length) :
    gather n s = ⟨.ok (), s.ahead.take n, dropBytes n s⟩
      ∧ Shows (dropBytes n s) (s.ahead.drop n) s.stopOutcome s.fromStop.tail := by
  obtain ⟨rest, hgather, hrest⟩ := s.shows_ahead.gather_full hn
  obtain ⟨got, how, left, hrow, hgathers⟩ := gather_gathers n s
  cases hgather.symm.trans hrow
  have hlen : (s.ahead.take n).length = n := List.length_take_of_le hn
  rw [← left_of_gathers hgathers hlen]
  exact ⟨hgather, hrest⟩

/-- **Where there are enough bytes, the first `n` are taken**, and the source is left right behind
them. -/
theorem readExact_of_le {n : Nat} {s : Source} (hn : n ≤ s.ahead.length) :
    s.readExact n = (.ok (s.ahead.take n), dropBytes n s) := by
  rw [readExact, (gather_of_le hn).1, Outcome.map_ok]

/-- **Where there are too few, all of them are taken and the stop is met.** -/
theorem readExact_of_lt {n : Nat} {s : Source} (hn : s.ahead.length < n) :
    s.readExact n = (s.stopOutcome.map fun _ => s.ahead, s.fromStop.tail) := by
  rw [readExact, s.shows_ahead.gather_short hn]
  rfl

/-! ## Where the source is left -/

/-- A piece that is dropped as a whole is gone. -/
theorem dropBytes_piece {n : Nat} {bytes : Bytes} (hn : 0 < n) (hle : bytes.length ≤ n)
    (rest : Source) : dropBytes n (.data bytes :: rest) = dropBytes (n - bytes.length) rest := by
  cases bytes with
  | nil => exact dropBytes_congr hn rfl
  | cons b bytes =>
    have hpiece : .data (b :: bytes) :: rest = unread (b :: bytes) rest := rfl
    have hall : dropBytes (b :: bytes).length (unread (b :: bytes) rest) = rest := by
      rw [dropBytes_unread (Nat.le_refl _), List.drop_length]
      rfl
    have hsplit : (b :: bytes).length + (n - (b :: bytes).length) = n := by omega
    rw [hpiece, ← hsplit, ← dropBytes_dropBytes, hall, hsplit]

/-- **Right behind some bytes** the events that held them are gone, and of the piece in which the
last of them stood there is what it has left. Induction on the script. -/
theorem dropBytes_cut {n : Nat} {s : Source} (hn : 0 < n) (hle : n ≤ s.ahead.length) :
    ∃ front bytes back rest, s = front ++ .data (bytes ++ back) :: rest
      ∧ (∀ event ∈ front, ¬ event.isStop) ∧ bytes ≠ []
      ∧ data front ++ bytes = s.ahead.take n ∧ dropBytes n s = unread back rest := by
  induction s generalizing n with
  | nil => exact absurd hn (Nat.not_lt.mpr hle)
  | cons event rest ih =>
    by_cases hstop : event.isStop = true
    · rw [ahead_stop hstop] at hle
      exact absurd hn (Nat.not_lt.mpr hle)
    · cases event with
      | data bytes =>
        by_cases hwithin : n ≤ bytes.length
        · -- the last of them is in this piece
          obtain ⟨b, bs, rfl⟩ := List.exists_cons_of_length_pos (Nat.lt_of_lt_of_le hn hwithin)
          refine ⟨[], (b :: bs).take n, (b :: bs).drop n, rest, ?_, by simp, ?_, ?_, ?_⟩
          · rw [List.take_append_drop, List.nil_append]
          · exact fun hnil => (List.take_eq_nil_iff.mp hnil).elim (Nat.ne_of_gt hn) (by simp)
          · rw [ahead_data, List.take_append_of_le_length hwithin]
            rfl
          · exact dropBytes_unread hwithin rest
        · have hbytes : bytes.length ≤ n := Nat.le_of_not_le hwithin
          rw [ahead_data, List.length_append] at hle
          obtain ⟨front, last, back, behind, rfl, hfront, hne, hdata, hdrop⟩ :=
            ih (n := n - bytes.length) (by omega) (by omega)
          refine ⟨.data bytes :: front, last, back, behind, rfl, ?_, hne, ?_, ?_⟩
          · exact List.forall_mem_cons.mpr ⟨hstop, hfront⟩
          · rw [data, List.append_assoc, hdata, ahead_data, List.take_append,
              List.take_of_length_le hbytes]
          · rw [← hdrop]
            exact dropBytes_piece hn hbytes _
      | fail e =>
        have he : e.isInterrupted = true := by simpa [Event.isStop] using hstop
        rw [ahead_interrupted he] at hle ⊢
        obtain ⟨front, last, back, behind, rfl, hfront, hne, hdata, hdrop⟩ := ih hn hle
        refine ⟨.fail e :: front, last, back, behind, rfl, ?_, hne, hdata, ?_⟩
        · exact List.forall_mem_cons.mpr ⟨hstop, hfront⟩
        · rw [← hdrop]
          exact dropBytes_congr hn rfl
      | endOfInput => exact absurd rfl hstop
      | crash message => exact absurd rfl hstop

/-! ## Put together -/

/-- What reading an exact number of bytes from `s` comes to. -/
structure ReadsExactly (s : Source) : Prop where
  /-- The first `n` bytes are taken, if so many are in front of the first stop. -/
  full : ∀ n ≤ s.ahead.length, s.readExact n = (.ok (s.ahead.take n), dropBytes n s)
  /-- The source is then left right behind them: nothing is read for no bytes, and otherwise nothing
  behind the last of them. -/
  left : dropBytes 0 s = s ∧ ∀ n, 0 < n → n ≤ s.ahead.length →
    ∃ front bytes back rest, s = front ++ .data (bytes ++ back) :: rest
      ∧ (∀ event ∈ front, ¬ event.isStop) ∧ bytes ≠ []
      ∧ data front ++ bytes = s.ahead.take n ∧ dropBytes n s = unread back rest
  /-- If there are fewer in front of an end of input, all of them are taken, and the end
  with them. -/
  short : (s.fromStop = [] ∨ ∃ rest, s.fromStop = .endOfInput :: rest) →
    ∀ n, s.ahead.length < n → s.readExact n = (.ok s.ahead, s.fromStop.tail)
  /-- If there are fewer in front of a failure, they are gone, and the failure with them. -/
  failed : ∀ e rest, s.fromStop = .fail e :: rest →
    ∀ n, s.ahead.length < n → s.readExact n = (.error e, rest)
  /-- That is the only way to fail. -/
  fails_iff : ∀ n e, (s.readExact n).1 = .error e
    ↔ s.ahead.length < n ∧ ∃ rest, s.fromStop = .fail e :: rest
  /-- Reading on behind a full read is reading more at once. -/
  composed : ∀ n m bytes middle, s.readExact n = (.ok bytes, middle) → bytes.length = n →
    s.readExact (n + m) = ((middle.readExact m).1.map (bytes ++ ·), (middle.readExact m).2)

/-- A read of `n` bytes fails just where fewer than `n` are ahead and the source stops with that
failure. -/
theorem readExact_error_iff {n : Nat} {s : Source} {e : IoError} :
    (s.readExact n).1 = .error e
      ↔ s.ahead.length < n ∧ ∃ rest, s.fromStop = .fail e :: rest := by
  constructor
  · intro h
    have hlt : s.ahead.length < n := by
      refine Nat.lt_of_not_le fun hle => ?_
      rw [readExact_of_le hle] at h
      cases h
    -- of the stops only a failure is told as an error
    rw [readExact_of_lt hlt] at h
    refine ⟨hlt, ?_⟩
    rcases hstop : s.fromStop with _ | ⟨event, rest⟩
    · rw [stopOutcome, hstop] at h
      cases h
    · rw [stopOutcome, hstop] at h
      cases event with
      | fail e' =>
        cases h
        exact ⟨rest, rfl⟩
      | data _ | endOfInput | crash _ => cases h
  · rintro ⟨hlt, rest, hstop⟩
    rw [readExact_of_lt hlt, stopOutcome, hstop]
    rfl

/-- A read that has got all that it asked for has left what it did not ask for. -/
theorem full_of_readExact {n : Nat} {s middle : Source} {bytes : Bytes}
    (h : s.readExact n = (.ok bytes, middle)) (hlength : bytes.length = n) :
    n ≤ s.ahead.length ∧ bytes = s.ahead.take n ∧ middle = dropBytes n s := by
  have hle : n ≤ s.ahead.length := by
    refine Nat.le_of_not_lt fun hlt => ?_
    rw [readExact_of_lt hlt] at h
    cases hstop : s.stopOutcome <;> rw [hstop] at h <;> cases h
    exact absurd hlength (Nat.ne_of_lt hlt)
  rw [readExact_of_le hle] at h
  cases h
  exact ⟨hle, rfl, rfl⟩

/-- Reading `n` bytes, all of which come, and then `m` others. -/
theorem readExact_add {n m : Nat} {s middle : Source} {bytes : Bytes}
    (h : s.readExact n = (.ok bytes, middle)) (hlength : bytes.length = n) :
    s.readExact (n + m) = ((middle.readExact m).1.map (bytes ++ ·), (middle.readExact m).2) := by
  obtain ⟨hle, rfl, rfl⟩ := full_of_readExact h hlength
  -- behind the first read there are the other bytes and the same stop
  obtain ⟨hahead, hstop, hbehind⟩ := (shows_ahead (dropBytes n s)).unique (gather_of_le hle).2
  have hrest : (dropBytes n s).ahead.length = s.ahead.length - n := by
    rw [hahead, List.length_drop]
  by_cases hm : m ≤ s.ahead.length - n
  · rw [readExact_of_le (s := s) (by omega), readExact_of_le (hrest.symm ▸ hm), hahead,
      Outcome.map_ok, List.take_add, dropBytes_dropBytes]
  · rw [readExact_of_lt (s := s) (by omega), readExact_of_lt (hrest.symm ▸ by omega), hstop,
      hbehind, hahead, Outcome.map_map]
    simp only [List.take_append_drop]

/-- **Reading an exact number of bytes is exact**, for every source and every number. The bytes in
front of the first end of input or failure are those of the events in front of it, and however these
are cut and interrupted, the read takes the first `n` bytes and leaves all events behind the last of
them, or it takes all bytes and the stop behind them. It fails if and only if this stop is a
failure. So nothing shows whether bytes were read at once or one part after the other. -/
theorem reads_exactly (s : Source) : ReadsExactly s where
  full _ hle := readExact_of_le hle
  left := ⟨rfl, fun _ hn hle => dropBytes_cut hn hle⟩
  short hend n hlt := by
    rw [readExact_of_lt hlt, stopOutcome]
    rcases hend with hend | ⟨rest, hend⟩ <;> rw [hend] <;> rfl
  failed e rest hstop n hlt := by
    rw [readExact_of_lt hlt, stopOutcome, hstop]
    rfl
  fails_iff _ _ := readExact_error_iff
  composed _ _ _ _ h hlength := readExact_add h hlength

/-- Five bytes in two pieces, with an interruption and an empty piece between them, then an end of
input, and behind it one more byte in front of a failure. -/
def brittleSource : Source :=
  [.data [1, 2], .data [], .fail (.plain .interrupted "signal"), .data [3, 4, 5], .endOfInput,
    .data [6], .fail (.plain .timedOut "late"), .data [7]]

/-- Reads are exact up to the end of input and short across it. Behind it the one across the failure
is an error. -/
theorem reads_exactly_brittleSource :
    brittleSource.readExact 3 = (.ok [1, 2, 3], .data [4, 5] :: brittleSource.drop 4)
      ∧ brittleSource.readExact 5 = (.ok [1, 2, 3, 4, 5], brittleSource.drop 4)
      ∧ brittleSource.readExact 6 = (.ok [1, 2, 3, 4, 5], brittleSource.drop 5)
      ∧ readExact 2 (brittleSource.drop 5) = (.error (.plain .timedOut "late"), [.data [7]]) := by
  have hreads := reads_exactly brittleSource
  have hfirst : brittleSource.readExact 3 = (.ok [1, 2, 3], .data [4, 5] :: brittleSource.drop 4) :=
    hreads.full 3 (by decide)
  refine ⟨hfirst, ?_, hreads.short (Or.inr ⟨_, rfl⟩) 6 (by decide),
    (reads_exactly (brittleSource.drop 5)).failed _ _ rfl 2 (by decide)⟩
  rw [hreads.composed 3 2 _ _ hfirst rfl]
  rw [(reads_exactly (.data [4, 5] :: brittleSource.drop 4)).full 2 (by decide)]
  rfl

end Source

end MessageFraming
