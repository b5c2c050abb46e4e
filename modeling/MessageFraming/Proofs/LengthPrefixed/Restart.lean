import MessageFraming.Proofs.LengthPrefixed.Reading

/-!
# Readers of length-prefixed frames start afresh behind a failure

A reader may be stopped between two frames, inside a prefix or inside a payload. In each of these
places it answers what the parser says of the bytes up to there, if the source ends, and with the
failure otherwise. What it had of the frame is gone, and the next read takes whatever comes for a
prefix.

* `LengthPrefixed.Reader.follows`: one read follows the framing of the parser
  (`LengthPrefixed.Reader.reads`), and this is what that makes of a reader. It knows nothing but
  what it has in front of it (`answers_eq_of_input_eq`).
-/

namespace MessageFraming

namespace LengthPrefixed

namespace Reader

/-- How much room a reader has grown does not show in what it reads. -/
theorem read_peak (input : BufferedSource) (limit peak peak' : Nat) :
    (read ⟨input, limit, peak⟩).1 = (read ⟨input, limit, peak'⟩).1
      ∧ (read ⟨input, limit, peak⟩).2.input = (read ⟨input, limit, peak'⟩).2.input := by
  -- `peak` is only written, never read, on every path
  rcases hread : Varint.read input with ⟨(_ | declared) | e | message, rest⟩
  · simp only [read, hread, and_self]
  · by_cases hlimit : limit < declared.toNat
    · simp only [read, hread, if_pos hlimit, and_self]
    · simp only [read, hread, if_neg hlimit, readPayload]
      rcases (gather declared.toNat rest).outcome with value | e | message
      · by_cases hshort : (gather declared.toNat rest).bytes.length < declared.toNat
        · simp only [if_pos hshort, and_self]
        · simp only [if_neg hshort, and_self]
      · exact ⟨rfl, rfl⟩
      · exact ⟨rfl, rfl⟩
  · simp only [read, hread, and_self]
  · simp only [read, hread, and_self]

/-- A reader is told by its input and its limit. -/
theorem answers_eq_of_input_eq {r r' : Reader} (hinput : r.input = r'.input)
    (hlimit : r.limit = r'.limit) (n : Nat) : Cursor.answers n r = Cursor.answers n r' := by
  have hsame : Cursor.Simulates fun (r r' : Reader) => r.input = r'.input ∧ r.limit = r'.limit := by
    rintro ⟨input, limit, peak⟩ ⟨_, _, peak'⟩ ⟨rfl, rfl⟩
    obtain ⟨hanswer, hrest⟩ := read_peak input limit peak peak'
    have hkept := (reads ⟨input, limit, peak⟩).2
    exact ⟨hanswer, hrest, hkept.trans (reads ⟨input, limit, peak'⟩).2.symm⟩
  exact (hsame.answers ⟨hinput, hlimit⟩ n).1

/-- The reader follows the grammar of frames, failures of the source included. -/
theorem follows (limit : Nat) : Cursor.Follows (framing limit) (fun source => ofSource source limit)
    (fun s r => r.input = s ∧ r.limit = limit) where
  start _ := ⟨rfl, rfl⟩
  takes := by
    rintro _ r ⟨rfl, rfl⟩
    obtain ⟨hreads, hlimit⟩ := r.reads
    obtain ⟨seen, htakes, hpasses, hfresh⟩ := hreads.takesOne
    exact ⟨seen, _, .one htakes nofun, hpasses, ⟨rfl, hlimit⟩, hfresh⟩
  alike h h' := answers_eq_of_input_eq (h.1.trans h'.1.symm) (h.2.trans h'.2.symm)

end Reader

end LengthPrefixed

end MessageFraming
