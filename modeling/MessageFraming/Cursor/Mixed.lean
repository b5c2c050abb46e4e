import MessageFraming.Cursor.InMemory
import MessageFraming.Cursor.Sequence
import MessageFraming.LengthPrefixed.Reader
import MessageFraming.Lines.Reader

/-!
# Mixed cursors

A stream put together at run time may join cursors of different formats, and joins of joins. `Mixed`
is the type of all of them. At a join it reads as `Sequence` does (`readFirst_eq`).
-/

namespace MessageFraming

inductive Mixed where
  | lengthPrefixed (reader : LengthPrefixed.Reader)
  | lines (reader : Lines.Reader)
  | inMemory (frames : InMemory)
  | join (cursors : List Mixed)

namespace Mixed

mutual

def read : Mixed → FrameResult × Mixed
  | .lengthPrefixed reader =>
    let (result, rest) := reader.read
    (result, .lengthPrefixed rest)
  | .lines reader =>
    let (result, rest) := reader.read
    (result, .lines rest)
  | .inMemory frames =>
    let (result, rest) := frames.read
    (result, .inMemory rest)
  | .join cursors =>
    let (result, rest) := readFirst cursors
    (result, .join rest)

/-- Reads the first of `cursors` that has something other than its end to report. -/
def readFirst : List Mixed → FrameResult × List Mixed
  | [] => (.ok none, [])
  | cursor :: cursors =>
    match cursor.read with
    | (.ok none, _) => readFirst cursors
    | (result, rest) => (result, rest :: cursors)

end

mutual

/-- Bytes and frames that are still to come. -/
def budget : Mixed → Nat
  | .lengthPrefixed reader => reader.input.remaining
  | .lines reader => reader.input.remaining
  | .inMemory frames => frames.frames.length
  | .join cursors => budgets cursors

def budgets : List Mixed → Nat
  | [] => 0
  | cursor :: cursors => cursor.budget + budgets cursors

end

mutual

/-- A frame costs the cursor that gives it some of its budget, however deep it stands. -/
theorem budget_lt {m m' : Mixed} {frame : Bytes} (h : m.read = (.ok (some frame), m')) :
    m'.budget < m.budget := by
  cases m with
  | lengthPrefixed reader =>
    simp only [read, Prod.mk.injEq] at h
    obtain ⟨hresult, rfl⟩ := h
    simpa [budget] using LengthPrefixed.Reader.read_remaining_lt (Prod.ext hresult rfl)
  | lines reader =>
    simp only [read, Prod.mk.injEq] at h
    obtain ⟨hresult, rfl⟩ := h
    simpa [budget] using Lines.Reader.read_remaining_lt (Prod.ext hresult rfl)
  | inMemory frames =>
    simp only [read, Prod.mk.injEq] at h
    obtain ⟨hresult, rfl⟩ := h
    simpa [budget] using InMemory.length_lt (Prod.ext hresult rfl)
  -- a composition gives the frame of one of its cursors
  | join cursors =>
    simp only [read, Prod.mk.injEq] at h
    obtain ⟨hresult, rfl⟩ := h
    simpa [budget] using budgets_lt (Prod.ext hresult rfl)

theorem budgets_lt {cursors cursors' : List Mixed} {frame : Bytes}
    (h : readFirst cursors = (.ok (some frame), cursors')) :
    budgets cursors' < budgets cursors := by
  cases cursors with
  | nil => simp [readFirst] at h
  | cons cursor cursors =>
    rw [readFirst] at h
    split at h
    · have := budgets_lt h
      simp only [budgets]
      omega
    · rename_i result rest hnone hread
      simp only [Prod.mk.injEq] at h
      obtain ⟨rfl, rfl⟩ := h
      have := budget_lt hread
      simp only [budgets]
      omega

end

end Mixed

instance : FiniteCursor Mixed where
  read := Mixed.read
  budget := Mixed.budget
  budget_lt := Mixed.budget_lt

/-- A join reads as a sequence of its cursors. -/
theorem Mixed.readFirst_eq (cursors : List Mixed) :
    Mixed.readFirst cursors = Sequence.readFirst cursors := by
  induction cursors with
  | nil => rfl
  | cons cursor cursors ih =>
    have hread : Cursor.read cursor = cursor.read := rfl
    rw [readFirst, Sequence.readFirst, ih, hread]
    rcases cursor.read with ⟨result, rest⟩
    cases result with
    | ok frame => cases frame <;> rfl
    | error e => rfl
    | crash message => rfl

end MessageFraming
