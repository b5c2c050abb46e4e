/-!
# Byte strings

Bytes are lists, so that a reader's input, a sink's contents and a frame are one type and can be
compared by equality. Two operations belong to every delimited format: joining frames
(`Bytes.join`) and cutting a window after its last delimiter (`Bytes.cutAfterLast`).
-/

namespace MessageFraming

abbrev Bytes := List UInt8

/-- The delimiter `\n` of line-oriented streams. -/
def newline : UInt8 := 10

/-- The byte `\r`, dropped where it ends a line. -/
def carriageReturn : UInt8 := 13

namespace Bytes

/-- The frames in order, with one delimiter between each pair. -/
def join (delimiter : UInt8) : List Bytes → Bytes
  | [] => []
  | [frame] => frame
  | frame :: next :: frames => frame ++ delimiter :: join delimiter (next :: frames)

/-- Cuts `bytes` after the last `delimiter`: the part up to and including it, and the part behind
it. Without a delimiter the first part is empty. -/
def cutAfterLast (delimiter : UInt8) (bytes : Bytes) : Bytes × Bytes :=
  let backwards := bytes.reverse
  ((backwards.dropWhile (· != delimiter)).reverse, (backwards.takeWhile (· != delimiter)).reverse)

/-- The two parts of a cut make up the whole. -/
theorem cutAfterLast_append (delimiter : UInt8) (bytes : Bytes) :
    (cutAfterLast delimiter bytes).1 ++ (cutAfterLast delimiter bytes).2 = bytes := by
  rw [cutAfterLast, ← List.reverse_append, List.takeWhile_append_dropWhile, List.reverse_reverse]

/-- The part behind the cut holds no delimiter. -/
theorem delimiter_not_mem_cutAfterLast (delimiter : UInt8) (bytes : Bytes) :
    delimiter ∉ (cutAfterLast delimiter bytes).2 := by
  intro hmem
  have hback : delimiter ∈ bytes.reverse.takeWhile (· != delimiter) := by
    simpa [cutAfterLast] using hmem
  have hne := List.all_takeWhile (l := bytes.reverse) (p := (· != delimiter))
  simpa using List.all_eq_true.mp hne delimiter hback

/-- What stands in front of a cut ends with the delimiter. -/
theorem cutAfterLast_getLast? {delimiter : UInt8} {bytes : Bytes}
    (h : (cutAfterLast delimiter bytes).1 ≠ []) :
    (cutAfterLast delimiter bytes).1.getLast? = some delimiter := by
  unfold cutAfterLast at h ⊢
  rw [List.getLast?_reverse]
  cases hdrop : bytes.reverse.dropWhile (· != delimiter) with
  | nil => simp [hdrop] at h
  | cons b rest =>
    have hb := List.head?_dropWhile_not (· != delimiter) bytes.reverse
    rw [hdrop] at hb
    simp at hb
    rw [hb]
    rfl

end Bytes

end MessageFraming
