import MessageFraming.Proofs.Lines.Grammar

/-!
# Where the bytes of lines go

Of a stream of lines, every byte is in a frame, or is a `\n`, or is the `\r` that was taken off the
end of a line. Lines that are passed over hold nothing else: an empty frame has no bytes, so leaving
it out loses none.

* `length_eq_flatten_split`: bytes are their lines and the `\n`s.
* `length_eq_of_frames`: so they are their frames, the `\n`s and the `\r`s that came off.
-/

namespace MessageFraming

namespace Lines

/-- The line has a `\r` that comes off. -/
def EndsInReturn (line : Bytes) : Prop := line.getLast? = some carriageReturn

instance (line : Bytes) : Decidable (EndsInReturn line) :=
  inferInstanceAs (Decidable (line.getLast? = some carriageReturn))

/-- A list of byte strings that all have bytes is no longer than what they hold. -/
theorem length_le_length_flatten {strings : List Bytes} (h : ∀ bytes ∈ strings, bytes ≠ []) :
    strings.length ≤ strings.flatten.length := by
  induction strings with
  | nil => exact Nat.le_refl 0
  | cons bytes strings ih =>
    obtain ⟨hbytes, hrest⟩ := List.forall_mem_cons.mp h
    have hpos := List.length_pos_iff.mpr hbytes
    have hlater := ih hrest
    rw [List.length_cons, List.flatten_cons, List.length_append]
    omega

/-- Bytes are their lines and the `\n`s. Induction on what is behind the first line. -/
theorem length_eq_flatten_split (bytes : Bytes) :
    bytes.length = (split bytes).flatten.length + bytes.count newline := by
  by_cases hne : bytes = []
  · rw [hne]
    rfl
  · have hlater := length_eq_flatten_split (behindFirst bytes)
    have hfirst : (first bytes).count newline = 0 :=
      List.count_eq_zero.mpr (newline_not_mem_first bytes)
    rw [split_eq_first_cons hne, List.flatten_cons, List.length_append]
    -- the last line may stand open, and then no newline is counted for it
    rcases first_cases bytes with ⟨hall, hnone⟩ | hcut
    · rw [hall] at hfirst ⊢
      rw [hnone, hfirst]
      rfl
    · have hlength := congrArg List.length hcut
      have hcount := congrArg (List.count newline) hcut
      rw [List.length_append, List.length_cons] at hlength
      rw [List.count_append, List.count_cons_self, hfirst] at hcount
      omega
termination_by bytes.length
decreasing_by exact behindFirst_length_lt hne

/-- A line is as long as its frame, and one byte longer if it ends in a carriage return. -/
theorem length_eq_strip (line : Bytes) :
    line.length = (strip line).length + if EndsInReturn line then 1 else 0 := by
  by_cases hreturn : EndsInReturn line
  · have hlast : line.getLast? = some carriageReturn := hreturn
    have hpos := List.length_pos_of_mem (List.mem_of_getLast? hlast)
    rw [strip, if_pos hlast, if_pos hreturn, List.length_dropLast]
    omega
  · have hlast : ¬ line.getLast? = some carriageReturn := hreturn
    rw [strip, if_neg hlast, if_neg hreturn, Nat.add_zero]

/-- Of some lines, the `\r`s come off and all other bytes stay. -/
theorem length_flatten_eq_map_strip (lines : List Bytes) :
    lines.flatten.length = (lines.map strip).flatten.length + lines.countP (EndsInReturn ·) := by
  induction lines with
  | nil => rfl
  | cons line lines ih =>
    have hline := length_eq_strip line
    rw [List.flatten_cons, List.map_cons, List.flatten_cons, List.length_append, List.length_append,
      List.countP_cons, ih, hline]
    simp only [decide_eq_true_eq]
    omega

/-- No bytes are lost with frames that have none. -/
theorem flatten_filter_isEmpty (frames : List Bytes) (skipEmpty : Bool) :
    (frames.filter fun frame => !(frame.isEmpty && skipEmpty)).flatten = frames.flatten := by
  induction frames with
  | nil => rfl
  | cons frame frames ih =>
    rw [List.filter_cons, List.flatten_cons]
    split
    · rw [List.flatten_cons, ih]
    · rename_i hskip
      have hempty : frame = [] := by
        cases frame with
        | nil => rfl
        | cons b bs => exact absurd rfl hskip
      rw [ih, hempty, List.nil_append]

/-- Frames that are found are the lines, stripped, but for those that are passed over. -/
theorem eq_filter_of_frames {limit : Nat} {skipEmpty : Bool} {bytes : Bytes} {found : List Bytes}
    (h : frames limit skipEmpty bytes = .ok found) :
    found = ((split bytes).map strip).filter fun frame => !(frame.isEmpty && skipEmpty) := by
  unfold frames collect at h
  split at h
  · cases h
  · cases h
    rfl

/-- **Where the bytes go.** They are in the frames, or are `\n`s, or `\r`s at the end of a line. -/
theorem length_eq_of_frames {limit : Nat} {skipEmpty : Bool} {bytes : Bytes} {found : List Bytes}
    (h : frames limit skipEmpty bytes = .ok found) :
    bytes.length = found.flatten.length + bytes.count newline
      + (split bytes).countP (EndsInReturn ·) := by
  rw [eq_filter_of_frames h, flatten_filter_isEmpty]
  have hlines := length_eq_flatten_split bytes
  have hstrip := length_flatten_eq_map_strip (split bytes)
  omega

/-- Where empty lines are passed over, every frame has a byte of its own. -/
theorem length_le_of_frames {limit : Nat} {bytes : Bytes} {found : List Bytes}
    (h : frames limit true bytes = .ok found) : found.length ≤ found.flatten.length := by
  apply length_le_length_flatten
  intro frame hmem hempty
  rw [eq_filter_of_frames h, List.mem_filter, hempty] at hmem
  cases hmem.2

end Lines

end MessageFraming
