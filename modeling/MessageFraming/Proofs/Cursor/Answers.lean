import MessageFraming.Proofs.Cursor.Drain

/-!
# What successive reads give

`Cursor.answers n s` are the answers of the next `n` reads, failures and ends included, and
`Cursor.after n s` is the state behind them. A cursor may go on after an error or an end, so the
list goes on as well.

* `Cursor.answers_add`: the answers of some reads, and then of others.
* `Cursor.Simulates`: two cursors that answer alike, and stay alike. Then all their answers are the
  same (`Cursor.Simulates.answers`).
* `Cursor.drain_eq_ok_iff`: draining comes to a list of frames just where reading gives these frames
  and then the end.
-/

namespace MessageFraming

namespace Cursor

/-! ## Reading on -/

section

variable {σ : Type} [Cursor σ]

/-- The answers of the next `n` reads. -/
def answers : Nat → σ → List FrameResult
  | 0, _ => []
  | n + 1, s => (read s).1 :: answers n (read s).2

/-- The cursor behind the next `n` reads. -/
def after : Nat → σ → σ
  | 0, s => s
  | n + 1, s => after n (read s).2

theorem answers_succ {s rest : σ} {result : FrameResult} (h : read s = (result, rest)) (n : Nat) :
    answers (n + 1) s = result :: answers n rest := by
  rw [answers, h]

/-- The answers to the calls that come later are those of the cursor that the others have left. -/
theorem answers_add (n m : Nat) (s : σ) :
    answers (n + m) s = answers n s ++ answers m (after n s) := by
  induction n generalizing s with
  | zero => rw [Nat.zero_add, answers, after, List.nil_append]
  | succ n ih => rw [Nat.succ_add, answers, answers, after, ih, List.cons_append]

/-- More calls keep the answers. -/
theorem mem_answers_of_le {n m : Nat} (h : n ≤ m) {s : σ} {answer : FrameResult}
    (hmem : answer ∈ answers n s) : answer ∈ answers m s := by
  obtain ⟨k, rfl⟩ := Nat.exists_eq_add_of_le h
  rw [answers_add]
  exact List.mem_append_left _ hmem

/-- Cursors whose next reads are the same answer alike. -/
theorem answers_congr {s s' : σ} (h : read s = read s') (n : Nat) :
    answers n s = answers n s' := by
  cases n with
  | zero => rfl
  | succ n => rw [answers, answers, h]

end

/-! ## Cursors that answer alike -/

section

variable {σ τ : Type} [Cursor σ] [Cursor τ]

/-- Related cursors give the same answer and stay related. -/
def Simulates (R : σ → τ → Prop) : Prop :=
  ∀ s t, R s t → (read s).1 = (read t).1 ∧ R (read s).2 (read t).2

/-- Cursors that simulate each other answer any number of calls alike, and still do so afterwards.
Induction on the calls. -/
theorem Simulates.answers {R : σ → τ → Prop} (hR : Simulates R) {s : σ} {t : τ} (h : R s t)
    (n : Nat) :
    Cursor.answers n s = Cursor.answers n t ∧ R (after n s) (after n t) := by
  induction n generalizing s t with
  | zero => exact ⟨rfl, h⟩
  | succ n ih =>
    obtain ⟨hanswer, hrest⟩ := hR s t h
    obtain ⟨hanswers, hafter⟩ := ih hrest
    refine ⟨?_, hafter⟩
    rw [Cursor.answers, Cursor.answers, hanswer, hanswers]

end

/-! ## Draining -/

/-- A drain that succeeds has read its frames and then the end. Induction on the budget. -/
theorem answers_of_drain {σ : Type} [FiniteCursor σ] {s : σ} {frames : List Bytes}
    (h : (drain s).1 = .ok frames) :
    answers (frames.length + 1) s = frames.map (fun frame => .ok (some frame)) ++ [.ok none] := by
  induction hb : FiniteCursor.budget s using Nat.strongRecOn generalizing s frames with
  | ind n ih =>
    rcases hread : read s with ⟨(_ | frame) | e | message, rest⟩
    · rw [drain_end hread] at h
      cases h
      rw [answers_succ hread]
      rfl
    · -- a frame, and then what the rest is drained to; all other answers are the last one
      have hlt : FiniteCursor.budget rest < n := hb ▸ FiniteCursor.budget_lt hread
      rw [drain_frame hread] at h
      cases hdrain : (drain rest).1 with
      | ok later =>
        rw [hdrain] at h
        cases h
        rw [List.length_cons, answers_succ hread, ih _ hlt hdrain rfl]
        rfl
      | error e =>
        rw [hdrain] at h
        cases h
      | crash message =>
        rw [hdrain] at h
        cases h
    · rw [drain_error hread] at h
      cases h
    · rw [drain_crash hread] at h
      cases h

/-- **Draining comes to a list of frames if and only if reading gives these frames and then the
end.** The other direction is an induction on the frames. -/
theorem drain_eq_ok_iff {σ : Type} [FiniteCursor σ] {s : σ} {frames : List Bytes} :
    (drain s).1 = .ok frames
      ↔ answers (frames.length + 1) s
          = frames.map (fun frame => .ok (some frame)) ++ [.ok none] := by
  refine ⟨answers_of_drain, fun h => ?_⟩
  induction frames generalizing s with
  | nil =>
    obtain ⟨hend, -⟩ := List.cons_eq_cons.mp h
    rw [drain_end (Prod.ext hend rfl)]
  | cons frame frames ih =>
    obtain ⟨hframe, hlater⟩ := List.cons_eq_cons.mp h
    rw [drain_frame (Prod.ext hframe rfl), ih hlater]
    rfl

end Cursor

end MessageFraming
