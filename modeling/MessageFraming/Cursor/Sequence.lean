import MessageFraming.Cursor

/-!
# Cursors one after another

A sequence reads its cursors in order. A cursor that reports its end is dropped at once and never
read again; an error passes through and leaves its cursor in front, so the next read goes on there.
Sequences are cursors themselves, and nest.
-/

namespace MessageFraming

/-- The cursors that have not reported their end. -/
structure Sequence (σ : Type) where
  cursors : List σ

namespace Sequence

variable {σ : Type}

/-- Number of cursors that have not reported their end. -/
def remaining (q : Sequence σ) : Nat := q.cursors.length

/-- Reads the first of `cursors` that has something other than its end to report. -/
def readFirst [Cursor σ] : List σ → FrameResult × List σ
  | [] => (.ok none, [])
  | cursor :: cursors =>
    match Cursor.read cursor with
    | (.ok none, _) => readFirst cursors
    | (result, rest) => (result, rest :: cursors)

def read [Cursor σ] (q : Sequence σ) : FrameResult × Sequence σ :=
  let (result, cursors) := readFirst q.cursors
  (result, ⟨cursors⟩)

/-- What all of `cursors` together still have to give. -/
def totalBudget [FiniteCursor σ] : List σ → Nat
  | [] => 0
  | cursor :: cursors => FiniteCursor.budget cursor + totalBudget cursors

/-- A frame costs one of the cursors some of its budget, and those that ended before it are gone. -/
theorem readFirst_budget_lt [FiniteCursor σ] {cursors cursors' : List σ} {frame : Bytes}
    (h : readFirst cursors = (.ok (some frame), cursors')) :
    totalBudget cursors' < totalBudget cursors := by
  induction cursors with
  | nil => simp [readFirst] at h
  | cons cursor cursors ih =>
    unfold readFirst at h
    split at h
    · -- the first cursor is at its end and leaves
      have := ih h
      simp only [totalBudget]
      omega
    · rename_i result rest hnone hread
      simp only [Prod.mk.injEq] at h
      obtain ⟨rfl, rfl⟩ := h
      have := FiniteCursor.budget_lt hread
      simp only [totalBudget]
      omega

end Sequence

instance {σ : Type} [Cursor σ] : Cursor (Sequence σ) where
  read := Sequence.read

instance {σ : Type} [FiniteCursor σ] : FiniteCursor (Sequence σ) where
  read := Sequence.read
  budget q := Sequence.totalBudget q.cursors
  budget_lt {q q' frame} h := by
    simp only [Sequence.read, Prod.mk.injEq] at h
    obtain ⟨hresult, rfl⟩ := h
    exact Sequence.readFirst_budget_lt (Prod.ext hresult rfl)

end MessageFraming
