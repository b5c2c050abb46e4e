import MessageFraming.Bytes
import MessageFraming.Outcome
import MessageFraming.IoError

/-!
# Byte sources

A source is the script of what its reads will see: data in pieces, failures, ends of input that
later data may follow, and crashes. After the script every read sees the end of input.

Consumers never call `Source.read` themselves. They `pull`, which reads again after an interruption,
through the interface `ByteSupply` that a bare source and a buffered one share. The one law of the
interface, `pull_remaining`, counts bytes: what a pull delivers is what the supply loses. It is
what makes every loop over a supply end.
-/

namespace MessageFraming

inductive Source.Event where
  | data (bytes : Bytes)
  | fail (error : IoError)
  | endOfInput
  | crash (message : String)
deriving Repr, DecidableEq

abbrev Source := List Source.Event

/-- Number of bytes that a call delivered. -/
def Outcome.delivered : Outcome IoError Bytes → Nat
  | .ok bytes => bytes.length
  | _ => 0

namespace Source

/-- The bytes not handed out yet. -/
def left : Source → Nat
  | [] => 0
  | .data bytes :: rest => bytes.length + left rest
  | _ :: rest => left rest

/-- Puts bytes that a read left over back in front. -/
def unread (bytes : Bytes) (rest : Source) : Source :=
  if bytes.isEmpty then rest else .data bytes :: rest

/-- One piece of data as the events of `n` bytes each, the last one shorter. -/
def fragments (n : Nat) (bytes : Bytes) : Source :=
  if _h : n = 0 ∨ bytes = [] then [] else .data (bytes.take n) :: fragments n (bytes.drop n)
termination_by bytes.length
decreasing_by
  have hne : bytes ≠ [] := fun e => _h (.inr e)
  have hpos := List.length_pos_iff.mpr hne
  simp only [List.length_drop]
  omega

/-- One read of at most `n` bytes. No bytes means the end of input. -/
def read (n : Nat) : Source → Outcome IoError Bytes × Source
  | [] => (.ok [], [])
  | .data [] :: rest => read n rest
  | .data (b :: bs) :: rest => (.ok ((b :: bs).take n), unread ((b :: bs).drop n) rest)
  | .fail e :: rest => (.error e, rest)
  | .endOfInput :: rest => (.ok [], rest)
  | .crash message :: rest => (.crash message, rest)

/-! ### What a read costs -/

/-- Bytes that are given back are left again. -/
theorem left_unread (bytes : Bytes) (rest : Source) :
    left (unread bytes rest) = bytes.length + left rest := by
  unfold unread
  split
  · rename_i h
    simp [List.isEmpty_iff.mp h]
  · rfl

/-- A read takes from what is left just what it delivers. -/
theorem read_left (n : Nat) (s : Source) :
    left (s.read n).2 + (s.read n).1.delivered = left s := by
  induction s with
  -- simpa [read, left] using ih => an empty piece is passed over
  | nil => rfl
  | cons event rest ih =>
    cases event with
    | data bytes =>
      cases bytes with
      | nil => simpa [read, left] using ih
      | cons b bs =>
        simp only [read, left, left_unread, Outcome.delivered, List.length_drop, List.length_take]
        omega
    | fail e => simp [read, left, Outcome.delivered]
    | endOfInput => simp [read, left, Outcome.delivered]
    | crash message => simp [read, left, Outcome.delivered]

/-- A failing read uses up an event of the script. -/
theorem read_error_length {n : Nat} {s rest : Source} {e : IoError}
    (h : s.read n = (.error e, rest)) : rest.length < s.length := by
  induction s with
  | nil => simp [read] at h
  | cons event tail ih =>
    cases event with
    | data bytes =>
      cases bytes with
      | nil =>
        have := ih (by simpa [read] using h)
        simp only [List.length_cons]
        omega
      | cons b bs => simp [read] at h
    | fail e' =>
      -- the failure itself is gone from the script
      simp only [read, Prod.mk.injEq] at h
      simp [h.2]
    | endOfInput => simp [read] at h
    | crash message => simp [read] at h

/-- A read of at most `n` bytes, made again for as long as it is interrupted. -/
def pull (n : Nat) (s : Source) : Outcome IoError Bytes × Source :=
  match _h : s.read n with
  | (.error e, rest) => if e.isInterrupted then pull n rest else (.error e, rest)
  | (.ok bytes, rest) => (.ok bytes, rest)
  | (.crash message, rest) => (.crash message, rest)
termination_by s.length
decreasing_by exact read_error_length _h

/-- So does a pull, which goes on behind interruptions. -/
theorem pull_left (n : Nat) (s : Source) :
    left (s.pull n).2 + (s.pull n).1.delivered = left s := by
  fun_induction pull n s with
  | case1 s e rest h hint ih =>
    have := read_left n s
    simp only [h, Outcome.delivered] at this
    omega
  | case2 s e rest h hint => simpa [h] using read_left n s
  | case3 s bytes rest h => simpa [h] using read_left n s
  | case4 s message rest h => simpa [h] using read_left n s

/-! ### The script decides what a pull sees -/

@[simp] theorem pull_nil (n : Nat) : pull n [] = (.ok [], []) := by
  rw [pull]; simp [read]

@[simp] theorem pull_data_nil (n : Nat) (rest : Source) :
    pull n (.data [] :: rest) = pull n rest := by
  rw [pull, pull.eq_def n rest]
  simp only [read]

@[simp] theorem pull_data_cons (n : Nat) (b : UInt8) (bs : Bytes) (rest : Source) :
    pull n (.data (b :: bs) :: rest) =
      (.ok ((b :: bs).take n), unread ((b :: bs).drop n) rest) := by
  rw [pull]; simp [read]

@[simp] theorem pull_endOfInput (n : Nat) (rest : Source) :
    pull n (.endOfInput :: rest) = (.ok [], rest) := by
  rw [pull]; simp [read]

@[simp] theorem pull_crash (n : Nat) (message : String) (rest : Source) :
    pull n (.crash message :: rest) = (.crash message, rest) := by
  rw [pull]; simp [read]

theorem pull_fail (n : Nat) (e : IoError) (rest : Source) :
    pull n (.fail e :: rest) = if e.isInterrupted then pull n rest else (.error e, rest) := by
  rw [pull]; simp [read]

end Source

/-- What delivers bytes on demand: at most `n` of them a pull, and none only at the end of input. -/
class ByteSupply (σ : Type) where
  pull : Nat → σ → Outcome IoError Bytes × σ
  /-- The bytes it still holds. -/
  remaining : σ → Nat
  pull_remaining : ∀ n s, remaining (pull n s).2 + (pull n s).1.delivered = remaining s

instance : ByteSupply Source where
  pull := Source.pull
  remaining := Source.left
  pull_remaining := Source.pull_left

end MessageFraming
