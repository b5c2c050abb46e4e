import MessageFraming.Cursor

/-!
# Frames in memory

A cursor over frames that are at hand. It never fails, and once at its end it stays there.
-/

namespace MessageFraming

/-- The frames still to be read. -/
structure InMemory where
  frames : List Bytes
deriving Repr, DecidableEq

def InMemory.read : InMemory → FrameResult × InMemory
  | ⟨[]⟩ => (.ok none, ⟨[]⟩)
  | ⟨frame :: frames⟩ => (.ok (some frame), ⟨frames⟩)

/-- A frame that was read is no longer held. -/
theorem InMemory.length_lt {m m' : InMemory} {frame : Bytes} (h : m.read = (.ok (some frame), m')) :
    m'.frames.length < m.frames.length := by
  obtain ⟨frames⟩ := m
  cases frames with
  | nil => simp [read] at h
  | cons f fs =>
    simp only [read, Prod.mk.injEq] at h
    simp [← h.2]

instance : FiniteCursor InMemory where
  read := InMemory.read
  budget m := m.frames.length
  budget_lt := InMemory.length_lt

end MessageFraming
