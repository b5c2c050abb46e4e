import MessageFraming.Units
import MessageFraming.Chunk.Error

/-!
# Chunk settings
-/

namespace MessageFraming

structure Chunk.Config where
  /-- Raw bytes read for one chunk; at least the longest frame. -/
  chunkSize : Nat := defaultChunkSize
  /-- Line limit of the cursors over single chunks. -/
  maxLineLength : Nat := defaultMaxLineLength
deriving Repr, DecidableEq

namespace Chunk.Config

/-- The settings that a chunker accepts. -/
structure Valid (c : Config) : Prop where
  chunkSize_pos : 0 < c.chunkSize
  chunkSize_le : c.chunkSize ≤ maxChunkSize
  maxLineLength_pos : 0 < c.maxLineLength

instance (c : Config) : Decidable c.Valid :=
  decidable_of_iff (0 < c.chunkSize ∧ c.chunkSize ≤ maxChunkSize ∧ 0 < c.maxLineLength)
    ⟨fun ⟨h₁, h₂, h₃⟩ => ⟨h₁, h₂, h₃⟩, fun ⟨h₁, h₂, h₃⟩ => ⟨h₁, h₂, h₃⟩⟩

/-- What is wrong with the settings; the chunk size is looked at first. -/
def problem? (c : Config) : Option ChunkError :=
  if c.chunkSize = 0 ∨ maxChunkSize < c.chunkSize then some (.invalidChunkSize c.chunkSize)
  else if c.maxLineLength = 0 then some (.invalidMaxLineLength c.maxLineLength)
  else none

/-- Settings have a problem exactly when they are not valid. -/
theorem problem?_eq_none_iff (c : Config) : c.problem? = none ↔ c.Valid := by
  unfold problem?
  split
  · rename_i h
    simp only [reduceCtorEq, false_iff]
    intro hvalid
    have := hvalid.chunkSize_pos
    have := hvalid.chunkSize_le
    omega
  · split
    · simp only [reduceCtorEq, false_iff]
      intro hvalid
      have := hvalid.maxLineLength_pos
      omega
    · -- all checks have passed
      simp only [true_iff]
      exact ⟨by omega, by omega, by omega⟩

end Chunk.Config

end MessageFraming
