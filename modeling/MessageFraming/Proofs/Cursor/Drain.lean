import MessageFraming.Cursor.Sequence

/-!
# Draining cursors

`Cursor.drain` reads until an end or an error and keeps the frames in an accumulator. Nobody else
needs to know of the accumulator: each way in which a read can end gives one equation for `drain`
(`drain_frame`, `drain_end`, `drain_error`, `drain_crash`).

Draining a sequence of cursors is draining them one after another, up to the first error
(`drain_sequence_cons`).
-/

namespace MessageFraming

namespace Cursor

variable {σ : Type} [FiniteCursor σ]

/-! ## One read -/

theorem drainOnto_frame {newestFirst : List Bytes} {s rest : σ} {frame : Bytes}
    (h : read s = (.ok (some frame), rest)) :
    drainOnto newestFirst s = drainOnto (frame :: newestFirst) rest := by
  rw [drainOnto]
  split <;> rename_i hread <;> rw [h] at hread <;> cases hread
  rfl

theorem drainOnto_end {newestFirst : List Bytes} {s rest : σ} (h : read s = (.ok none, rest)) :
    drainOnto newestFirst s = (.ok newestFirst.reverse, rest) := by
  rw [drainOnto]
  split <;> rename_i hread <;> rw [h] at hread <;> cases hread
  rfl

theorem drainOnto_error {newestFirst : List Bytes} {s rest : σ} {e : FrameError}
    (h : read s = (.error e, rest)) : drainOnto newestFirst s = (.error e, rest) := by
  rw [drainOnto]
  split <;> rename_i hread <;> rw [h] at hread <;> cases hread
  rfl

theorem drainOnto_crash {newestFirst : List Bytes} {s rest : σ} {message : String}
    (h : read s = (.crash message, rest)) : drainOnto newestFirst s = (.crash message, rest) := by
  rw [drainOnto]
  split <;> rename_i hread <;> rw [h] at hread <;> cases hread
  rfl

/-- The frames in the accumulator come out in front of all others. Induction on the budget. -/
theorem drainOnto_eq (newestFirst : List Bytes) (s : σ) :
    drainOnto newestFirst s = ((drain s).1.map (newestFirst.reverse ++ ·), (drain s).2) := by
  unfold drain
  induction hb : FiniteCursor.budget s using Nat.strongRecOn generalizing newestFirst s with
  | ind n ih =>
    rcases hread : read s with ⟨(_ | frame) | e | message, rest⟩
    · rw [drainOnto_end hread, drainOnto_end hread]
      simp
    · -- only a frame makes the loop go on
      have hlt : FiniteCursor.budget rest < n := hb ▸ FiniteCursor.budget_lt hread
      rw [drainOnto_frame hread, drainOnto_frame hread, ih _ hlt (frame :: newestFirst) rest rfl,
        ih _ hlt [frame] rest rfl, Outcome.map_map]
      simp
    · rw [drainOnto_error hread, drainOnto_error hread]
      rfl
    · rw [drainOnto_crash hread, drainOnto_crash hread]
      rfl

/-- A frame goes in front of what is drained behind it. -/
theorem drain_frame {s rest : σ} {frame : Bytes} (h : read s = (.ok (some frame), rest)) :
    drain s = ((drain rest).1.map (frame :: ·), (drain rest).2) := by
  show drainOnto [] s = _
  rw [drainOnto_frame h, drainOnto_eq]
  rfl

theorem drain_end {s rest : σ} (h : read s = (.ok none, rest)) : drain s = (.ok [], rest) :=
  drainOnto_end h

theorem drain_error {s rest : σ} {e : FrameError} (h : read s = (.error e, rest)) :
    drain s = (.error e, rest) := drainOnto_error h

theorem drain_crash {s rest : σ} {message : String} (h : read s = (.crash message, rest)) :
    drain s = (.crash message, rest) := drainOnto_crash h

/-- A drain looks at nothing but what its reads answer. -/
theorem drain_congr {s s' : σ} (h : read s = read s') : drain s = drain s' := by
  rcases hread : read s' with ⟨(_ | frame) | e | message, rest⟩ <;> rw [hread] at h
  · rw [drain_end h, drain_end hread]
  · rw [drain_frame h, drain_frame hread]
  · rw [drain_error h, drain_error hread]
  · rw [drain_crash h, drain_crash hread]

/-! ## Sequences -/

theorem read_sequence (q : Sequence σ) : read q = q.read := rfl

theorem drain_sequence_nil : drain (⟨[]⟩ : Sequence σ) = (.ok [], ⟨[]⟩) := drain_end rfl

/-- A cursor at its end is invisible in front of others. -/
theorem read_sequence_end {c rest : σ} {cs : List σ} (h : read c = (.ok none, rest)) :
    read (⟨c :: cs⟩ : Sequence σ) = read (⟨cs⟩ : Sequence σ) := by
  rw [read_sequence, read_sequence, Sequence.read, Sequence.readFirst, h]
  rfl

/-- Anything but an end is passed on, and leaves its cursor in front. -/
theorem read_sequence_cons {c rest : σ} {cs : List σ} {result : FrameResult}
    (h : read c = (result, rest)) (hne : result ≠ .ok none) :
    read (⟨c :: cs⟩ : Sequence σ) = (result, ⟨rest :: cs⟩) := by
  rw [read_sequence, Sequence.read, Sequence.readFirst, h]
  rcases result with (_ | frame) | e | message
  · exact absurd rfl hne
  all_goals rfl

/-- **Draining a sequence** gives the frames of its first cursor, and behind them those of the
others; the first error ends it. Induction on the budget of the first cursor. -/
theorem drain_sequence_cons (c : σ) (cs : List σ) :
    (drain (⟨c :: cs⟩ : Sequence σ)).1 =
      (drain c).1.bind fun frames => (drain (⟨cs⟩ : Sequence σ)).1.map (frames ++ ·) := by
  induction hb : FiniteCursor.budget c using Nat.strongRecOn generalizing c with
  | ind n ih =>
    rcases hread : read c with ⟨(_ | frame) | e | message, rest⟩
    · -- the first cursor is at its end: what is left are the others
      rw [drain_congr (read_sequence_end hread), drain_end hread]
      show _ = (drain (⟨cs⟩ : Sequence σ)).1.map fun frames => frames
      cases (drain (⟨cs⟩ : Sequence σ)).1 <;> rfl
    · have hlt : FiniteCursor.budget rest < n := hb ▸ FiniteCursor.budget_lt hread
      rw [drain_frame (read_sequence_cons hread (by simp)), drain_frame hread, ih _ hlt rest rfl]
      cases (drain rest).1 with
      | ok frames =>
        rw [Outcome.map_ok, Outcome.bind_ok, Outcome.bind_ok, Outcome.map_map]
        rfl
      | error e => rfl
      | crash message => rfl
    · rw [drain_error (read_sequence_cons hread (by simp)), drain_error hread]
      rfl
    · rw [drain_crash (read_sequence_cons hread (by simp)), drain_crash hread]
      rfl

end Cursor

end MessageFraming
