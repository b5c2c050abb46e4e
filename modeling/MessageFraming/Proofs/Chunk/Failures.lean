import MessageFraming.Chunk.Chunker
import MessageFraming.Proofs.Chunk.Emission
import MessageFraming.Proofs.Source.Delivery

/-!
# What can go wrong with a chunker

A chunker has no crashes of its own: on a source without crashes it never crashes
(`Chunker.next_not_crash`), however often it is called (`Chunker.crashFree_of_emits`).
-/

namespace MessageFraming

namespace Chunker

/-- No crash waits in what is left of the source. -/
def CrashFree (c : Chunker) : Prop := ∀ source, c.source = some source → source.CrashFree

/-- Without a source nothing can crash. -/
theorem crashFree_of_none {c : Chunker} (h : c.source = none) : c.CrashFree := by
  intro source hsource
  rw [h] at hsource
  cases hsource

theorem crashFree_of_some {c : Chunker} {source : Source} (h : c.source = some source)
    (hsource : source.CrashFree) : c.CrashFree := by
  intro source' hsource'
  rw [h] at hsource'
  cases hsource'
  exact hsource

/-- A chunker crashes only with its source. -/
theorem crashFree_ofSource {source : Source} {config : Chunk.Config} {c : Chunker}
    (hsource : source.CrashFree) (h : ofSource source config = .ok c) : c.CrashFree := by
  unfold ofSource at h
  split at h
  · cases h
  · cases h
    exact crashFree_of_some rfl hsource

/-- A call that has not crashed, and will not crash when it is made again. -/
def Calm (call : Outcome ChunkError (Option Chunk) × Chunker) : Prop :=
  (∀ message, call.1 ≠ .crash message) ∧ call.2.CrashFree

/-- Emitting does not crash, and leaves the source as it is. -/
theorem calm_emit {content : Bytes} {c : Chunker} (h : c.CrashFree) : Calm (emit content c) := by
  unfold emit
  split
  · exact ⟨fun message => by simp, h⟩
  · exact ⟨fun message => by simp, h⟩

theorem calm_abort {e : ChunkError} {c : Chunker} : Calm (.error e, c.abort) :=
  ⟨fun message => by simp, crashFree_of_none rfl⟩

/-- Closing a window does not crash: what is left of the source is kept, or given up. -/
theorem calm_closeWindow {window : Bytes} {rest : Source} {c : Chunker} (h : rest.CrashFree) :
    Calm (closeWindow window rest c) := by
  obtain ⟨hcrash, hrest⟩ := h.pullByte
  unfold closeWindow
  split
  · -- the source is gone with its end
    exact calm_emit (crashFree_of_none rfl)
  · rename_i b after hbyte
    rw [hbyte] at hrest
    split
    · exact calm_emit (crashFree_of_some rfl hrest)
    · exact calm_abort
  · exact calm_abort
  · -- a crash would be one of the source
    rename_i message after hbyte
    rw [hbyte] at hcrash
    exact absurd rfl (hcrash message)

/-- Nor does cutting one. -/
theorem calm_cutWindow {window : Bytes} {rest : Source} {c : Chunker} (h : rest.CrashFree) :
    Calm (cutWindow window rest c) := by
  unfold cutWindow
  split
  · split
    · exact calm_emit (crashFree_of_none rfl)
    · exact calm_closeWindow h
  · refine calm_emit ?_
    unfold sourceAfter
    split
    · exact crashFree_of_none rfl
    · exact crashFree_of_some rfl h

/-- **A call on a source without crashes does not crash**, and leaves none behind. -/
theorem next_not_crash {c : Chunker} (h : c.CrashFree) : Calm c.next := by
  unfold next
  split
  · rename_i hsource
    exact calm_emit (crashFree_of_none hsource)
  · rename_i source hsource
    obtain ⟨hcrash, hrest⟩ := (h source hsource).gather (n := c.config.chunkSize)
    simp only
    split
    · exact calm_cutWindow hrest
    · exact calm_abort
    · rename_i message hgather
      exact absurd hgather (hcrash message)

/-- Chunks leave a chunker with a source that does not crash either. -/
theorem crashFree_of_emits {chunker c : Chunker} {chunks : List Chunk} (h : chunker.CrashFree)
    (hrun : ChunkFeed.Emits chunker chunks c) : c.CrashFree := by
  -- on the calls: none of them puts a crash into the source
  induction hrun with
  | start => exact h
  | next _ hnext ih =>
    have hcalm := next_not_crash ih
    rw [show Chunker.next _ = _ from hnext] at hcalm
    exact hcalm.2

end Chunker

end MessageFraming
