import MessageFraming.Proofs.Source.Gathering

/-!
# What a source delivers

A source is a script of events, and a reader sees neither the events nor the places where they are
cut: it sees bytes, an end, a failure or a crash. This module says which bytes those are.

* `Source.upToEnd`: the bytes in front of the first end of input. Gathering `n` bytes takes the
  first `n` of them and leaves the others, or takes all of them and falls short (`gather_ok`).
* `Source.CrashFree`: no crash in the script. Pulling and gathering never crash then, and leave a
  script without crashes.
* `Source.Delivers`: the whole script does nothing but deliver these bytes. It may cut them
  anywhere and interrupt any read, and once it has come to its end it stays there.
-/

namespace MessageFraming

namespace Source

/-! ## The bytes up to the end of input -/

/-- The bytes in front of the first end of input. Failures and crashes hide nothing: whoever gets
past them sees the bytes behind. -/
def upToEnd : Source → Bytes
  | [] => []
  | .data bytes :: rest => bytes ++ upToEnd rest
  | .fail _ :: rest => upToEnd rest
  | .crash _ :: rest => upToEnd rest
  | .endOfInput :: _ => []

theorem upToEnd_unread (bytes : Bytes) (rest : Source) :
    (unread bytes rest).upToEnd = bytes ++ rest.upToEnd := by
  unfold unread
  split
  · rename_i hempty
    rw [List.isEmpty_iff.mp hempty, List.nil_append]
  · rfl

/-- A pull that delivers nothing has come to the end; one that delivers takes the next bytes and no
more than it asked for. Induction on the script: interruptions and empty data are passed over. -/
theorem pull_ok {n : Nat} {s rest : Source} {piece : Bytes} (hn : 0 < n)
    (h : s.pull n = (.ok piece, rest)) :
    (piece = [] ∧ s.upToEnd = [])
      ∨ (piece ≠ [] ∧ piece.length ≤ n ∧ s.upToEnd = piece ++ rest.upToEnd) := by
  induction s with
  | nil =>
    rw [pull_nil] at h
    cases h
    exact Or.inl ⟨rfl, rfl⟩
  | cons event s ih =>
    cases event with
    | data bytes =>
      cases bytes with
      | nil =>
        rw [pull_data_nil] at h
        exact ih h
      | cons b bs =>
        rw [pull_data_cons] at h
        cases h
        refine Or.inr ⟨?_, ?_, ?_⟩
        · intro hnil
          have := congrArg List.length hnil
          rw [List.length_take, List.length_cons, List.length_nil] at this
          omega
        · rw [List.length_take]
          omega
        · rw [upToEnd_unread, ← List.append_assoc, List.take_append_drop]
          rfl
    | fail e =>
      rw [pull_fail] at h
      split at h
      · -- so it does behind an interruption
        exact ih h
      · cases h
    | endOfInput =>
      rw [pull_endOfInput] at h
      cases h
      exact Or.inl ⟨rfl, rfl⟩
    | crash message =>
      rw [pull_crash] at h
      cases h

/-- Induction on the row of pulls: each piece is taken off the front. -/
theorem upToEnd_of_gathers {n : Nat} {s rest : Source} {got : Bytes} {how : Outcome IoError Unit}
    (h : Gathers n s got how rest) (hok : how = .ok ()) :
    (got.length = n ∧ s.upToEnd = got ++ rest.upToEnd)
      ∨ (got.length < n ∧ s.upToEnd = got) := by
  induction h with
  | enough s => exact Or.inl ⟨rfl, rfl⟩
  -- the pull came back empty, which is the end here
  | stopped hn hpull =>
    rw [hok] at hpull
    rcases pull_ok hn hpull with ⟨-, hend⟩ | ⟨hne, -⟩
    · exact Or.inr ⟨hn, hend⟩
    · exact absurd rfl hne
  -- one more piece in front
  | piece hn hpull _ ih =>
    rcases pull_ok hn hpull with ⟨hnil, -⟩ | ⟨-, hle, hs⟩
    · cases hnil
    · rw [List.length_cons] at hle
      rw [List.length_append, List.length_cons, hs, List.append_assoc]
      rcases ih hok with ⟨hlen, hrest⟩ | ⟨hlen, hrest⟩
      · exact Or.inl ⟨by omega, by rw [hrest]⟩
      · exact Or.inr ⟨by omega, by rw [hrest]⟩

/-- **What a gathering takes.** Either the `n` bytes that come next, with all others left behind
them, or everything up to the end, which is less. -/
theorem gather_ok {n : Nat} {s : Source} (h : (gather n s).outcome = .ok ()) :
    ((gather n s).bytes.length = n
        ∧ s.upToEnd = (gather n s).bytes ++ (gather n s).supply.upToEnd)
      ∨ ((gather n s).bytes.length < n ∧ s.upToEnd = (gather n s).bytes) := by
  obtain ⟨got, how, rest, hgather, hgathers⟩ := gather_gathers n s
  rw [hgather] at h ⊢
  exact upToEnd_of_gathers hgathers h

/-- Pulling one byte is a pull of at most one. -/
theorem pullByte_eq {s rest : Source} {outcome : Outcome IoError Bytes}
    (hpull : s.pull 1 = (outcome, rest)) : pullByte s = (outcome.map List.head?, rest) := by
  show ((s.pull 1).1.map List.head?, (s.pull 1).2) = _
  rw [hpull]

/-- A byte comes unless the source is at its end. -/
theorem pullByte_ok {s rest : Source} {b? : Option UInt8} (h : pullByte s = (.ok b?, rest)) :
    (b? = none ∧ s.upToEnd = []) ∨ ∃ b, b? = some b ∧ s.upToEnd = b :: rest.upToEnd := by
  rcases hp : s.pull 1 with ⟨outcome, rest'⟩
  rw [pullByte_eq hp] at h
  cases outcome with
  | error e => cases h
  | crash message => cases h
  | ok piece =>
    cases h
    rcases pull_ok Nat.one_pos hp with ⟨rfl, hend⟩ | ⟨hne, hle, hs⟩
    · exact Or.inl ⟨rfl, hend⟩
    · cases piece with
      | nil => exact absurd rfl hne
      | cons b bs =>
        rw [List.length_cons] at hle
        -- it was asked for one byte only
        have hbs : bs = [] := List.length_eq_zero_iff.mp (by omega)
        rw [hbs] at hs
        exact Or.inr ⟨b, rfl, hs⟩

/-! ## Sources that do not crash -/

def CrashFree (s : Source) : Prop := ∀ message, Event.crash message ∉ s

/-- Behind the first event there is no crash either. -/
theorem CrashFree.tail {event : Event} {s : Source} (h : CrashFree (event :: s)) : s.CrashFree :=
  fun message hmem => h message (List.mem_cons_of_mem event hmem)

/-- Giving bytes back adds no crash. -/
theorem CrashFree.unread {bytes : Bytes} {rest : Source} (h : rest.CrashFree) :
    (unread bytes rest).CrashFree := by
  unfold Source.unread
  split
  · exact h
  · intro message hmem
    rcases List.mem_cons.mp hmem with hhead | hrest
    · cases hhead
    · exact h message hrest

/-- A pull crashes only with the source, and leaves the crashes that are to come. -/
theorem CrashFree.pull {n : Nat} {s rest : Source} {outcome : Outcome IoError Bytes}
    (h : s.CrashFree) (hpull : s.pull n = (outcome, rest)) :
    (∀ message, outcome ≠ .crash message) ∧ rest.CrashFree := by
  induction s with
  | nil =>
    rw [pull_nil] at hpull
    cases hpull
    -- by simp, h.tail.unread⟩ => what was not asked for is given back
    exact ⟨fun message => by simp, h⟩
  | cons event s ih =>
    cases event with
    | data bytes =>
      cases bytes with
      | nil =>
        rw [pull_data_nil] at hpull
        exact ih h.tail hpull
      | cons b bs =>
        rw [pull_data_cons] at hpull
        cases hpull
        exact ⟨fun message => by simp, h.tail.unread⟩
    | fail e =>
      rw [pull_fail] at hpull
      split at hpull
      · exact ih h.tail hpull
      · cases hpull
        exact ⟨fun message => by simp, h.tail⟩
    | endOfInput =>
      rw [pull_endOfInput] at hpull
      cases hpull
      exact ⟨fun message => by simp, h.tail⟩
    | crash message => exact absurd List.mem_cons_self (h message)

/-- Induction on the row of pulls, none of which crashes. -/
theorem CrashFree.of_gathers {n : Nat} {s rest : Source} {got : Bytes} {how : Outcome IoError Unit}
    (h : s.CrashFree) (hgathers : Gathers n s got how rest) :
    (∀ message, how ≠ .crash message) ∧ rest.CrashFree := by
  induction hgathers with
  | enough s => exact ⟨fun message => by simp, h⟩
  | stopped _ hpull =>
    obtain ⟨hcrash, hrest⟩ := h.pull hpull
    exact ⟨fun message hhow => hcrash message (by rw [hhow, Outcome.map_crash]), hrest⟩
  | piece _ hpull _ ih => exact ih (h.pull hpull).2

/-- A gathering crashes only with the source. -/
theorem CrashFree.gather {n : Nat} {s : Source} (h : s.CrashFree) :
    (∀ message, (gather n s).outcome ≠ .crash message)
      ∧ (MessageFraming.gather n s).supply.CrashFree := by
  obtain ⟨got, how, rest, hgather, hgathers⟩ := gather_gathers n s
  rw [hgather]
  exact h.of_gathers hgathers

/-- So does the pull of a byte. -/
theorem CrashFree.pullByte {s : Source} (h : s.CrashFree) :
    (∀ message, (pullByte s).1 ≠ .crash message) ∧ (MessageFraming.pullByte s).2.CrashFree := by
  rcases hp : s.pull 1 with ⟨outcome, rest⟩
  obtain ⟨hcrash, hrest⟩ := h.pull hp
  rw [pullByte_eq hp]
  refine ⟨?_, hrest⟩
  intro message hmap
  cases outcome with
  | ok piece => cases hmap
  | error e => cases hmap
  | crash message' => exact hcrash message' rfl

/-! ## Sources that only deliver -/

/-- The source hands out `bytes`, in pieces of any size and with interruptions anywhere, and then
stays at its end. -/
inductive Delivers : Source → Bytes → Prop where
  | nil : Delivers [] []
  | data {bytes later : Bytes} {rest : Source} :
      Delivers rest later → Delivers (.data bytes :: rest) (bytes ++ later)
  | interrupted {e : IoError} {bytes : Bytes} {rest : Source} :
      e.isInterrupted → Delivers rest bytes → Delivers (.fail e :: rest) bytes
  | ended {rest : Source} : Delivers rest [] → Delivers (.endOfInput :: rest) []

/-- Bytes in one piece are delivered. -/
theorem delivers_data (bytes : Bytes) : Delivers [.data bytes] bytes := by
  have : Delivers [.data bytes] (bytes ++ []) := .data .nil
  rwa [List.append_nil] at this

/-- What is delivered is all there is up to the end. -/
theorem Delivers.upToEnd_eq {s : Source} {bytes : Bytes} (h : s.Delivers bytes) :
    s.upToEnd = bytes := by
  induction h with
  | nil => rfl
  | data _ ih => rw [upToEnd, ih]
  | interrupted _ _ ih => exact ih
  | ended _ _ => rfl

end Source

end MessageFraming
