import MessageFraming.Cursor
import MessageFraming.Source.Buffered

/-!
# Reading lines

Lines end at `\n`; one `\r` in front of it, or at the end of an unterminated last line, is dropped.
The end of input ends a line that has bytes, and is the end of the stream where it has none.

The length limit is checked twice. A finished line is measured without its `\r`. A line still
growing is given up once it is more than one byte past the limit, because at most one `\r` can still
come off: so an endless line costs no more than the limit and one window.
-/

namespace MessageFraming

namespace Lines

structure Config where
  /-- Longest accepted line, terminator excluded. -/
  maxLineLength : Nat := defaultMaxLineLength
  /-- Whether lines without bytes are passed over. -/
  skipEmpty : Bool := false
deriving Repr, DecidableEq

/-- The default settings, but with lines without bytes passed over. -/
def Config.skippingEmpty : Config := { skipEmpty := true }

/-- A line under construction: its bytes newest first, with their number at hand. -/
structure Staged where
  newestFirst : Bytes
  size : Nat
  size_eq : size = newestFirst.length

namespace Staged

def empty : Staged := ⟨[], 0, rfl⟩

def push (line : Staged) (bytes : Bytes) : Staged :=
  ⟨bytes.reverse ++ line.newestFirst, line.size + bytes.length, by
    simp [line.size_eq, Nat.add_comm]⟩

/-- The line as it is yielded: one `\r` at its end is dropped. -/
def stripped (line : Staged) : Bytes :=
  match line.newestFirst with
  | [] => []
  | b :: rest => if b = carriageReturn then rest.reverse else (b :: rest).reverse

end Staged

structure Reader where
  input : BufferedSource
  config : Config

namespace Reader

def ofSource (source : Source) (config : Config) : Reader := ⟨.ofSource source, config⟩

/-- A line that has ended is yielded if it is short enough. -/
def yieldLine (limit : Nat) (line : Staged) : FrameResult :=
  if limit < line.stripped.length then .error (.lineTooLong limit) else .ok (some line.stripped)

/-- Reads on in a line of which `line` is staged; `started` says whether it has any input yet. -/
def scan (limit : Nat) (line : Staged) (started : Bool) (s : BufferedSource) :
    FrameResult × BufferedSource :=
  match _h : s.fill with
  | (.error e, rest) => (.error (.io .readLine e), rest)
  | (.crash message, rest) => (.crash message, rest)
  | (.ok [], rest) => (if started then yieldLine limit line else .ok none, rest)
  | (.ok (b :: bs), rest) =>
    match (b :: bs).dropWhile (· != newline) with
    | _ :: behind =>
      (yieldLine limit (line.push ((b :: bs).takeWhile (· != newline))),
        { rest with buffer := behind })
    | [] =>
      -- one byte of slack for a `\r` that waits for its `\n`
      if limit + 1 < (line.push (b :: bs)).size then
        (.error (.lineTooLong limit), { rest with buffer := [] })
      else scan limit (line.push (b :: bs)) true { rest with buffer := [] }
termination_by s.remaining
decreasing_by exact BufferedSource.remaining_taken_lt _h

/-- The next line, empty ones included. -/
def nextLine (r : Reader) : FrameResult × Reader :=
  let (result, input) := scan r.config.maxLineLength .empty false r.input
  (result, { r with input })

/-! ### What a line costs -/

/-- A line that ends in a fill leaves less behind than there was, its newline if nothing else. -/
theorem remaining_behind_lt {s filled : BufferedSource} {bytes behind : Bytes} {c : UInt8}
    (h : s.fill = (.ok bytes, filled)) (hdrop : bytes.dropWhile (· != newline) = c :: behind) :
    ({ filled with buffer := behind } : BufferedSource).remaining < s.remaining := by
  have hlen := congrArg List.length (List.takeWhile_append_dropWhile (p := (· != newline))
    (l := bytes))
  rw [hdrop, List.length_append, List.length_cons] at hlen
  rw [BufferedSource.remaining_of_fill h]
  show behind.length + filled.source.left < _
  omega

/-- A scan takes bytes and puts none back. -/
theorem scan_remaining_le (limit : Nat) (line : Staged) (started : Bool) (s : BufferedSource) :
    (scan limit line started s).2.remaining ≤ s.remaining := by
  fun_induction scan limit line started s with
  | case1 line started s e rest h =>
    simpa [h] using Nat.le_of_eq s.fill_remaining
  | case2 line started s message rest h =>
    simpa [h] using Nat.le_of_eq s.fill_remaining
  | case3 line started s rest h =>
    simpa [h] using Nat.le_of_eq s.fill_remaining
  | case4 line started s b bs rest h c behind hdrop =>
    exact Nat.le_of_lt (remaining_behind_lt h hdrop)
  | case5 line started s b bs rest h hdrop hlimit =>
    exact Nat.le_of_lt (BufferedSource.remaining_taken_lt h)
  | case6 line started s b bs rest h hdrop hlimit ih =>
    exact Nat.le_trans ih (Nat.le_of_lt (BufferedSource.remaining_taken_lt h))

/-- A line that was yielded had input: without any the stream is at its end. -/
theorem scan_remaining_lt {limit : Nat} {line : Staged} {s rest : BufferedSource} {frame : Bytes}
    (h : scan limit line false s = (.ok (some frame), rest)) : rest.remaining < s.remaining := by
  unfold scan at h
  split at h
  · simp at h
  · simp at h
  · simp at h
  · rename_i b bs filled hfill
    split at h
    · rename_i c behind hdrop
      rw [← (Prod.mk.inj h).2]
      exact remaining_behind_lt hfill hdrop
    · split at h
      · simp at h
      · -- the round took a byte, and the rounds behind it bring none back
        have hle := scan_remaining_le limit (line.push (b :: bs)) true
          { filled with buffer := [] }
        rw [h] at hle
        exact Nat.lt_of_le_of_lt hle (BufferedSource.remaining_taken_lt hfill)

/-- A line costs at least one byte, its end or what stands before the end of input. -/
theorem nextLine_remaining_lt {r r' : Reader} {frame : Bytes}
    (h : r.nextLine = (.ok (some frame), r')) : r'.input.remaining < r.input.remaining := by
  simp only [nextLine, Prod.mk.injEq] at h
  obtain ⟨hresult, rfl⟩ := h
  exact scan_remaining_lt (Prod.ext hresult rfl)

/-- The next line that the configuration does not pass over. -/
def read (r : Reader) : FrameResult × Reader :=
  match _h : r.nextLine with
  | (.ok (some line), rest) =>
    if line.isEmpty && r.config.skipEmpty then read rest else (.ok (some line), rest)
  | (.ok none, rest) => (.ok none, rest)
  | (.error e, rest) => (.error e, rest)
  | (.crash message, rest) => (.crash message, rest)
termination_by r.input.remaining
decreasing_by exact nextLine_remaining_lt _h

/-- A line is handed out, or passed over as if the reader stood behind it. -/
theorem read_of_line {r rest : Reader} {line : Bytes} (h : r.nextLine = (.ok (some line), rest)) :
    r.read = if line.isEmpty && r.config.skipEmpty then rest.read else (.ok (some line), rest) := by
  rw [read]
  split <;> rename_i hline <;> cases h.symm.trans hline
  rfl

/-- Where there is no line, what there is instead is passed on. -/
theorem read_of_no_line {r rest : Reader} {answer : FrameResult} (h : r.nextLine = (answer, rest))
    (hnone : ∀ line, answer ≠ .ok (some line)) : r.read = (answer, rest) := by
  rw [read]
  split <;> rename_i hline <;> cases h.symm.trans hline
  · exact absurd rfl (hnone _)
  · rfl
  · rfl
  · rfl

/-- A frame costs at least the bytes of its line, and those of the empty lines before it that were
skipped. -/
theorem read_remaining_lt {r r' : Reader} {frame : Bytes} (h : r.read = (.ok (some frame), r')) :
    r'.input.remaining < r.input.remaining := by
  fun_induction read r with
  | case1 r line rest hline hskip ih => exact Nat.lt_trans (ih h) (nextLine_remaining_lt hline)
  | case2 r line rest hline hskip =>
    simp only [Prod.mk.injEq] at h
    rw [← h.2]
    exact nextLine_remaining_lt hline
  | case3 r rest hline => simp at h
  | case4 r e rest hline => simp at h
  | case5 r message rest hline => simp at h

instance : FiniteCursor Reader where
  read := read
  budget r := r.input.remaining
  budget_lt := read_remaining_lt

end Reader

end Lines

end MessageFraming
