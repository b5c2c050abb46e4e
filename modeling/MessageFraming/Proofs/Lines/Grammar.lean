import MessageFraming.Bytes
import MessageFraming.Outcome
import MessageFraming.Frame.Error

/-!
# The grammar of lines

What a byte string holds, as a line-oriented stream, is said here without any reader and without
any buffer:

* `Lines.split`: the segments between the `\n`s; an empty one behind the last `\n` is no line.
* `Lines.strip`: a line without one `\r` at its end.
* `Lines.Overlong`: the limit applies to the stripped line.
* `Lines.collect`, `Lines.frames`: the stripped lines, with or without the empty ones, unless one
  is overlong.

Everything here goes through a cut behind a `\n`: the lines of `a ++ b` are those of `a` and then
those of `b` (`split_append`), and so are the frames (`frames_append`). This is what makes it sound
to decode a stream piece by piece.
-/

namespace MessageFraming

namespace Lines

/-- The lines of a byte string. -/
def split (bytes : Bytes) : List Bytes :=
  if (bytes.splitOn newline).getLast? = some [] then (bytes.splitOn newline).dropLast
  else bytes.splitOn newline

/-- The line without one `\r` at its end. -/
def strip (line : Bytes) : Bytes :=
  if line.getLast? = some carriageReturn then line.dropLast else line

/-- The line is too long, terminator excluded. -/
def Overlong (limit : Nat) (line : Bytes) : Prop := limit < (strip line).length

instance (limit : Nat) (line : Bytes) : Decidable (Overlong limit line) :=
  inferInstanceAs (Decidable (limit < (strip line).length))

/-- The frames of these lines: each without its `\r`, and without the empty ones where `skipEmpty`
says so. A single overlong line spoils all of them. -/
def collect (limit : Nat) (skipEmpty : Bool) (lines : List Bytes) :
    Outcome FrameError (List Bytes) :=
  if ∃ line ∈ lines, Overlong limit line then .error (.lineTooLong limit)
  else .ok ((lines.map strip).filter fun frame => !(frame.isEmpty && skipEmpty))

/-- The frames that `bytes` hold. -/
def frames (limit : Nat) (skipEmpty : Bool) (bytes : Bytes) : Outcome FrameError (List Bytes) :=
  collect limit skipEmpty (split bytes)

/-- The first line, or what there is of it. -/
def first (bytes : Bytes) : Bytes := bytes.takeWhile (· != newline)

/-- What stands behind the first `\n`. -/
def behindFirst (bytes : Bytes) : Bytes := (bytes.dropWhile (· != newline)).tail

/-- A cut behind `bytes` goes through no line. -/
def Aligned (bytes : Bytes) : Prop := bytes = [] ∨ bytes.getLast? = some newline

/-! ## Lines -/

@[simp] theorem split_nil : split [] = [] := rfl

/-- The first line ends at the first line feed. -/
theorem split_cons {line : Bytes} (hline : newline ∉ line) (behind : Bytes) :
    split (line ++ newline :: behind) = line :: split behind := by
  unfold split
  rw [List.splitOn_append_cons_self_of_not_mem hline]
  -- the segment in front is never the last one
  have hne := List.splitOn_ne_nil newline behind
  rw [List.getLast?_cons_of_ne_nil hne, List.dropLast_cons_of_ne_nil hne]
  split <;> rfl

/-- Bytes without a `\n` are one line, if there are any. -/
theorem split_unterminated {line : Bytes} (hline : newline ∉ line) (hne : line ≠ []) :
    split line = [line] := by
  unfold split
  rw [List.splitOn_eq_singleton hline, if_neg]
  rw [List.getLast?_singleton, Option.some.injEq]
  exact hne

/-- There is no line feed in it. -/
theorem newline_not_mem_first (bytes : Bytes) : newline ∉ first bytes := by
  intro hmem
  have hall := List.all_takeWhile (l := bytes) (p := (· != newline))
  have := List.all_eq_true.mp hall newline hmem
  simp at this

/-- Bytes without a `\n` belong to the first line. -/
theorem first_append_of_not_mem {front : Bytes} (h : newline ∉ front) (behind : Bytes) :
    first (front ++ behind) = front ++ first behind :=
  List.takeWhile_append_of_pos fun _ hmem => bne_iff_ne.mpr fun hb => h (hb ▸ hmem)

/-- Without a line feed everything is the first line. -/
theorem first_of_not_mem {bytes : Bytes} (h : newline ∉ bytes) : first bytes = bytes := by
  have hfirst := first_append_of_not_mem h []
  rwa [List.append_nil, show first [] = [] from rfl, List.append_nil] at hfirst

/-- The first line is all there is, or a `\n` stands between it and the others. -/
theorem first_cases (bytes : Bytes) :
    (first bytes = bytes ∧ behindFirst bytes = [])
      ∨ bytes = first bytes ++ newline :: behindFirst bytes := by
  have hcut : first bytes ++ bytes.dropWhile (· != newline) = bytes :=
    List.takeWhile_append_dropWhile
  -- what is left behind the line starts with the byte that stopped it
  have hhead := List.head?_dropWhile_not (· != newline) bytes
  unfold behindFirst
  cases hdrop : bytes.dropWhile (· != newline) with
  | nil =>
    rw [hdrop, List.append_nil] at hcut
    exact Or.inl ⟨hcut, rfl⟩
  | cons b behind =>
    rw [hdrop] at hcut hhead
    have hb : b = newline := by simpa using hhead
    rw [hb] at hcut
    exact Or.inr hcut.symm

/-- And nothing is behind it. -/
theorem behindFirst_of_not_mem {bytes : Bytes} (h : newline ∉ bytes) : behindFirst bytes = [] := by
  rcases first_cases bytes with ⟨-, hnone⟩ | hcut
  · exact hnone
  · rw [hcut] at h
    exact absurd (List.mem_append_right _ List.mem_cons_self) h

/-- The lines are the first one and those behind it. -/
theorem split_eq_first_cons {bytes : Bytes} (hne : bytes ≠ []) :
    split bytes = first bytes :: split (behindFirst bytes) := by
  have hline := newline_not_mem_first bytes
  rcases first_cases bytes with ⟨hall, hnone⟩ | hcut
  · rw [hall] at hline ⊢
    rw [hnone]
    exact split_unterminated hline hne
  · have hsplit := split_cons hline (behindFirst bytes)
    rwa [← hcut] at hsplit

/-- A first line takes at least its line feed. -/
theorem behindFirst_length_lt {bytes : Bytes} (hne : bytes ≠ []) :
    (behindFirst bytes).length < bytes.length := by
  have hcut : first bytes ++ bytes.dropWhile (· != newline) = bytes :=
    List.takeWhile_append_dropWhile
  have hlen := congrArg List.length hcut
  have hpos := List.length_pos_iff.mpr hne
  rw [List.length_append] at hlen
  unfold behindFirst
  rw [List.length_tail]
  omega

/-- No line runs across a cut behind a `\n`. -/
theorem split_append {a : Bytes} (ha : Aligned a) (b : Bytes) :
    split (a ++ b) = split a ++ split b := by
  rcases ha with rfl | hlast
  · rfl
  · obtain ⟨body, rfl⟩ := List.getLast?_eq_some_iff.mp hlast
    -- both sides are the segments of `body`, and the lines of `b` behind them
    have hsegments : ∀ behind, split (body ++ newline :: behind)
        = body.splitOn newline ++ split behind := by
      intro behind
      unfold split
      rw [List.splitOn_append_cons_self]
      have hne := List.splitOn_ne_nil newline behind
      rw [List.getLast?_append, List.getLast?_eq_some_getLast hne, Option.some_or,
        List.dropLast_append_of_ne_nil hne]
      split <;> rfl
    rw [List.append_assoc, List.singleton_append, hsegments, hsegments, split_nil,
      List.append_nil]

/-- A line stands somewhere in the bytes, and holds no `\n`. Induction on what is behind the first
line. -/
theorem of_mem_split {bytes line : Bytes} (h : line ∈ split bytes) :
    line <:+: bytes ∧ newline ∉ line := by
  by_cases hne : bytes = []
  · rw [hne] at h
    cases h
  · rw [split_eq_first_cons hne] at h
    rcases List.mem_cons.mp h with rfl | hlater
    · exact ⟨(List.takeWhile_prefix _).isInfix, newline_not_mem_first bytes⟩
    · obtain ⟨hinside, hline⟩ := of_mem_split hlater
      have hsuffix : behindFirst bytes <:+ bytes :=
        (List.tail_suffix _).trans (List.dropWhile_suffix _)
      exact ⟨hinside.trans hsuffix.isInfix, hline⟩
termination_by bytes.length
decreasing_by exact behindFirst_length_lt hne

/-- Bytes that end on a line boundary are their lines, each with its `\n`. -/
theorem flatMap_split {bytes : Bytes} (h : Aligned bytes) :
    (split bytes).flatMap (· ++ [newline]) = bytes := by
  by_cases hne : bytes = []
  · rw [hne]
    rfl
  · have hlast := h.resolve_left hne
    rcases first_cases bytes with ⟨hall, -⟩ | hcut
    · -- the boundary at the end is a `\n`, so there is a first one
      have hmem := List.mem_of_getLast? hlast
      rw [← hall] at hmem
      exact absurd hmem (newline_not_mem_first bytes)
    · have haligned : Aligned (behindFirst bytes) := by
        cases hbehind : behindFirst bytes with
        | nil => exact Or.inl rfl
        | cons b behind =>
          rw [hcut, hbehind, List.getLast?_append, List.getLast?_cons_cons] at hlast
          exact Or.inr (by simpa using hlast)
      rw [split_eq_first_cons hne, List.flatMap_cons, flatMap_split haligned, List.append_assoc,
        List.singleton_append, ← hcut]
termination_by bytes.length
decreasing_by exact behindFirst_length_lt hne

/-! ## Frames -/

theorem collect_eq_error {limit : Nat} {skipEmpty : Bool} {lines : List Bytes}
    (h : ∃ line ∈ lines, Overlong limit line) :
    collect limit skipEmpty lines = .error (.lineTooLong limit) := if_pos h

theorem collect_eq_ok {limit : Nat} {skipEmpty : Bool} {lines : List Bytes}
    (h : ¬ ∃ line ∈ lines, Overlong limit line) :
    collect limit skipEmpty lines
      = .ok ((lines.map strip).filter fun frame => !(frame.isEmpty && skipEmpty)) := if_neg h

@[simp] theorem collect_nil (limit : Nat) (skipEmpty : Bool) :
    collect limit skipEmpty [] = .ok [] :=
  collect_eq_ok (by simp)

/-- Lines are collected one part after the other, and an error in the front hides the rest. -/
theorem collect_append (limit : Nat) (skipEmpty : Bool) (front back : List Bytes) :
    collect limit skipEmpty (front ++ back) =
      (collect limit skipEmpty front).bind fun frames =>
        (collect limit skipEmpty back).map (frames ++ ·) := by
  -- an overlong line in front hides whatever comes behind
  by_cases hfront : ∃ line ∈ front, Overlong limit line
  · obtain ⟨line, hmem, hlong⟩ := hfront
    rw [collect_eq_error ⟨line, hmem, hlong⟩,
      collect_eq_error ⟨line, List.mem_append_left back hmem, hlong⟩]
    rfl
  · rw [collect_eq_ok hfront]
    by_cases hback : ∃ line ∈ back, Overlong limit line
    · obtain ⟨line, hmem, hlong⟩ := hback
      rw [collect_eq_error ⟨line, hmem, hlong⟩,
        collect_eq_error ⟨line, List.mem_append_right front hmem, hlong⟩]
      rfl
    · have hall : ¬ ∃ line ∈ front ++ back, Overlong limit line := by
        rintro ⟨line, hmem, hlong⟩
        rcases List.mem_append.mp hmem with hmem | hmem
        · exact hfront ⟨line, hmem, hlong⟩
        · exact hback ⟨line, hmem, hlong⟩
      rw [collect_eq_ok hback, collect_eq_ok hall, List.map_append, List.filter_append]
      rfl

/-- One line in front of others: it is overlong, or it is passed over, or it is a frame. -/
theorem collect_cons (limit : Nat) (skipEmpty : Bool) (line : Bytes) (lines : List Bytes) :
    collect limit skipEmpty (line :: lines) =
      if Overlong limit line then .error (.lineTooLong limit)
      else if (strip line).isEmpty && skipEmpty then collect limit skipEmpty lines
      else (collect limit skipEmpty lines).map (strip line :: ·) := by
  rw [← List.singleton_append, collect_append]
  by_cases hline : Overlong limit line
  · rw [if_pos hline, collect_eq_error ⟨line, List.mem_singleton_self line, hline⟩]
    rfl
  · rw [if_neg hline, collect_eq_ok (by simpa using hline)]
    cases hskip : (strip line).isEmpty && skipEmpty with
    | true =>
      simp only [List.map_cons, List.map_nil, List.filter_cons, hskip, Outcome.bind_ok]
      cases collect limit skipEmpty lines <;> rfl
    | false =>
      simp only [List.map_cons, List.map_nil, List.filter_cons, hskip, Outcome.bind_ok]
      rfl

@[simp] theorem frames_nil (limit : Nat) (skipEmpty : Bool) : frames limit skipEmpty [] = .ok [] :=
  collect_nil limit skipEmpty

/-- **Decoding piece by piece.** Behind a cut that goes through no line, the frames of the first
piece stand in front of those of the second. -/
theorem frames_append {a : Bytes} (ha : Aligned a) (limit : Nat) (skipEmpty : Bool) (b : Bytes) :
    frames limit skipEmpty (a ++ b) =
      (frames limit skipEmpty a).bind fun front => (frames limit skipEmpty b).map (front ++ ·) := by
  unfold frames
  rw [split_append ha, collect_append]

/-- There are frames, or a line is too long; nothing else can go wrong. -/
theorem frames_cases (limit : Nat) (skipEmpty : Bool) (bytes : Bytes) :
    (∃ line ∈ split bytes, Overlong limit line)
        ∧ frames limit skipEmpty bytes = .error (.lineTooLong limit)
      ∨ (¬ ∃ line ∈ split bytes, Overlong limit line)
        ∧ ∃ found, frames limit skipEmpty bytes = .ok found := by
  by_cases h : ∃ line ∈ split bytes, Overlong limit line
  · exact Or.inl ⟨h, collect_eq_error h⟩
  · exact Or.inr ⟨h, _, collect_eq_ok h⟩

end Lines

end MessageFraming
