import MessageFraming.LengthPrefixed.Reader
import MessageFraming.Proofs.Cursor.Drains

/-!
# Iterating over the frames of a cursor

There are two ways to get at all frames of a cursor: an iterator that is asked for one item after
the other, and draining. A cursor may have more behind an end or an error, so it matters that both
read it equally often. Both stop at the same read.

* `Cursor.upToStop`: of the answers of a cursor, those up to the first end or error.
* `Cursor.Logged`: a cursor with a log of its answers, which shows how often it was read.
* `Frames.items_eq`, `Frames.after_eq`: the iterator reads the cursor up to that answer and passes
  on what it reads, and from then on it leaves the cursor alone.
* `Frames.Collects`: collecting the items into one list, or into the first failure. What it comes to
  is what draining comes to (`Frames.collects_iff`).
* `Frames.stops_where_draining_stops`: all of it put together.
-/

namespace MessageFraming

namespace Cursor

/-- Whether no frame is to be expected behind the answer: it is an end or an error. -/
def isStop : FrameResult → Bool
  | .ok none => true
  | .error _ => true
  | .ok (some _) => false
  | .crash _ => false

/-- The answers up to the first end or error, and that one. -/
def upToStop : List FrameResult → List FrameResult
  | [] => []
  | answer :: answers => if isStop answer then [answer] else answer :: upToStop answers

theorem upToStop_of_stop {answer : FrameResult} (h : isStop answer = true)
    (answers : List FrameResult) : upToStop (answer :: answers) = [answer] := by
  rw [upToStop, if_pos h]

theorem upToStop_of_going {answer : FrameResult} (h : isStop answer = false)
    (answers : List FrameResult) : upToStop (answer :: answers) = answer :: upToStop answers := by
  rw [upToStop, h, if_neg Bool.false_ne_true]

/-- A cursor with a log of what its reads answered. -/
structure Logged (σ : Type) where
  cursor : σ
  log : List FrameResult

variable {σ : Type} [Cursor σ]

/-- It answers as the cursor does. -/
instance : Cursor (Logged σ) where
  read s := ((read s.cursor).1, ⟨(read s.cursor).2, s.log ++ [(read s.cursor).1]⟩)

/-- A log changes no answer. -/
theorem answers_logged (n : Nat) (s : Logged σ) : answers n s = answers n s.cursor := by
  induction n generalizing s with
  | zero => rfl
  | succ n ih =>
    show (read s.cursor).1 :: answers n (read s).2 = _
    rw [ih]
    rfl

theorem after_logged (n : Nat) (s : Logged σ) :
    after n s = ⟨after n s.cursor, s.log ++ answers n s.cursor⟩ := by
  induction n generalizing s with
  | zero =>
    show s = ⟨s.cursor, s.log ++ []⟩
    rw [List.append_nil]
  | succ n ih =>
    show after n (read s).2 = _
    rw [ih]
    show Logged.mk _ ((s.log ++ [_]) ++ _) = _
    rw [List.append_assoc]
    rfl

/-- The answers up to the stop are those of as many reads. -/
theorem answers_length_upToStop (n : Nat) (s : σ) :
    answers (upToStop (answers n s)).length s = upToStop (answers n s) := by
  induction n generalizing s with
  | zero => rfl
  | succ n ih =>
    rw [answers]
    cases hstop : isStop (read s).1 with
    | true =>
      rw [upToStop_of_stop hstop]
      rfl
    | false =>
      rw [upToStop_of_going hstop, List.length_cons, answers, ih]

end Cursor

namespace Frames

open Cursor

variable {σ : Type} [Cursor σ]

/-! ## Items -/

/-- What the next `n` calls of `next` give. -/
def items : Nat → Frames σ → List FrameResult
  | 0, _ => []
  | n + 1, it => it.next.1 :: items n it.next.2

/-- The iterator behind the next `n` calls of `next`. -/
def after : Nat → Frames σ → Frames σ
  | 0, it => it
  | n + 1, it => after n it.next.2

/-- Up to the stop an iterator passes on what the cursor answers. -/
theorem next_ofCursor (s : σ) :
    (ofCursor s).next = ((read s).1, ⟨(read s).2, isStop (read s).1⟩) := by
  rw [next, ofCursor, if_neg Bool.false_ne_true]
  rcases read s with ⟨(_ | frame) | e | message, rest⟩ <;> rfl

theorem next_of_done (s : σ) : next ⟨s, true⟩ = (.ok none, ⟨s, true⟩) := rfl

/-- An iterator that is done stays done, and leaves the cursor alone. -/
theorem of_done (n : Nat) (s : σ) :
    items n ⟨s, true⟩ = List.replicate n (.ok none)
      ∧ after n ⟨s, true⟩ = (⟨s, true⟩ : Frames σ) := by
  induction n with
  | zero => exact ⟨rfl, rfl⟩
  | succ n ih =>
    rw [items, after, next_of_done, ih.1, ih.2]
    exact ⟨rfl, rfl⟩

/-- **The items are the answers up to the stop**, and nothing from then on. Induction on the number
of calls. -/
theorem items_eq (n : Nat) (s : σ) :
    items n (ofCursor s) = upToStop (answers n s)
      ++ List.replicate (n - (upToStop (answers n s)).length) (.ok none) := by
  induction n generalizing s with
  | zero => rfl
  | succ n ih =>
    rw [items, next_ofCursor, answers]
    cases hstop : isStop (read s).1 with
    | true =>
      -- the iterator is done behind this answer, and the rest of the calls get nothing
      rw [upToStop_of_stop hstop, (of_done n (read s).2).1]
      rfl
    | false =>
      -- it is an iterator over the cursor behind the frame, as if it began there
      have hlater : items n (ofCursor (read s).2) = _ := ih (read s).2
      rw [upToStop_of_going hstop, List.length_cons, Nat.add_sub_add_right, List.cons_append,
        ← hlater]
      rfl

/-- **As many reads are made of the cursor as there are answers up to the stop.** Induction on the
number of calls. -/
theorem after_eq (n : Nat) (s : σ) :
    (after n (ofCursor s)).cursor = Cursor.after (upToStop (answers n s)).length s := by
  induction n generalizing s with
  | zero => rfl
  | succ n ih =>
    rw [after, next_ofCursor, answers]
    cases hstop : isStop (read s).1 with
    | true =>
      -- this was the last read
      rw [upToStop_of_stop hstop, (of_done n (read s).2).2]
      rfl
    | false =>
      rw [upToStop_of_going hstop]
      exact ih (read s).2

/-- And these are the answers that the cursor gave. -/
theorem after_logged (n : Nat) (s : σ) :
    (after n (ofCursor (Logged.mk s []))).cursor
      = ⟨Cursor.after (upToStop (answers n s)).length s, upToStop (answers n s)⟩ := by
  rw [after_eq, answers_logged, Cursor.after_logged, answers_length_upToStop]
  rfl

/-! ## Collecting -/

/-- Collecting the items of `it` returns `outcome` and leaves `rest`: items are asked for until one
is no frame. If there was no failure, the outcome are all frames. -/
def Collects (it : Frames σ) (outcome : Outcome FrameError (List Bytes)) (rest : Frames σ) : Prop :=
  ∃ (frames : List Bytes) (last : FrameResult), (∀ frame, last ≠ .ok (some frame))
    ∧ items (frames.length + 1) it = frames.map (fun frame => .ok (some frame)) ++ [last]
    ∧ outcome = last.map (fun _ => frames) ∧ rest = after (frames.length + 1) it

/-- An iterator over a cursor with a frame goes on as one over the cursor behind it. -/
theorem next_of_frame {s next : σ} {frame : Bytes} (h : read s = (.ok (some frame), next)) :
    (ofCursor s).next = (.ok (some frame), ofCursor next) := by
  rw [next_ofCursor, h]
  rfl

/-- Induction on the frames that are collected. -/
theorem drains_of_items {s : σ} {frames : List Bytes} {last : FrameResult}
    (hlast : ∀ frame, last ≠ .ok (some frame))
    (h : items (frames.length + 1) (ofCursor s)
      = frames.map (fun frame => .ok (some frame)) ++ [last]) :
    Drains s (last.map fun _ => frames) (after (frames.length + 1) (ofCursor s)).cursor := by
  induction frames generalizing s with
  | nil =>
    -- the one item is no frame, so the read behind it ends the drain too
    have hanswer : (read s).1 = last := by
      rw [List.length_nil, items, next_ofCursor] at h
      exact List.head_eq_of_cons_eq h
    show Drains s _ (ofCursor s).next.2.cursor
    rw [next_ofCursor]
    exact .of_last (Prod.ext hanswer rfl) hlast
  | cons frame frames ih =>
    -- the frame comes of the first read, and the other items of an iterator behind it
    have hread : read s = (.ok (some frame), (read s).2) := by
      rw [List.length_cons, items, next_ofCursor] at h
      exact Prod.ext (List.head_eq_of_cons_eq h) rfl
    rw [List.length_cons, items, next_of_frame hread] at h
    have hlater := ih (List.tail_eq_of_cons_eq h)
    have houtcome : (last.map fun _ => frame :: frames)
        = (last.map fun _ => frames).map (frame :: ·) := (Outcome.map_map _ _ last).symm
    rw [List.length_cons, after, next_of_frame hread, houtcome]
    exact .frame hread hlater

/-- Where no frame comes, nothing is collected. -/
theorem collects_of_last {s rest : σ} {last : FrameResult} (hread : read s = (last, rest))
    (hlast : ∀ frame, last ≠ .ok (some frame)) :
    ∃ it, Collects (ofCursor s) (last.map fun _ => []) it ∧ it.cursor = rest := by
  refine ⟨_, ⟨[], last, hlast, ?_, rfl, rfl⟩, ?_⟩
  · rw [List.length_nil, items, next_ofCursor, hread]
    rfl
  · show (ofCursor s).next.2.cursor = rest
    rw [next_ofCursor, hread]

/-- Induction on the reads of the drain. -/
theorem collects_of_drains {s rest : σ} {outcome : Outcome FrameError (List Bytes)}
    (h : Drains s outcome rest) : ∃ it, Collects (ofCursor s) outcome it ∧ it.cursor = rest := by
  induction h with
  | ended hread => exact collects_of_last hread (by simp)
  | failed hread => exact collects_of_last hread (by simp)
  | crashed hread => exact collects_of_last hread (by simp)
  | @frame s next rest frame outcome hread _ ih =>
    obtain ⟨_, ⟨frames, last, hlast, hitems, rfl, rfl⟩, rfl⟩ := ih
    refine ⟨_, ⟨frame :: frames, last, hlast, ?_, Outcome.map_map _ _ last, rfl⟩, ?_⟩
    · rw [List.length_cons, items, next_of_frame hread, hitems]
      rfl
    · rw [List.length_cons, after, next_of_frame hread]

/-- **Collecting the items of a cursor is draining it.** -/
theorem collects_iff {s rest : σ} {outcome : Outcome FrameError (List Bytes)} :
    (∃ it, Collects (ofCursor s) outcome it ∧ it.cursor = rest) ↔ Drains s outcome rest := by
  refine ⟨?_, collects_of_drains⟩
  rintro ⟨_, ⟨frames, last, hlast, hitems, rfl, rfl⟩, rfl⟩
  exact drains_of_items hlast hitems

/-! ## Put together -/

/-- What iterating over the frames of `s` comes to. -/
structure Iterates (s : σ) : Prop where
  /-- The items are the answers up to the first end or error, and there are none from then on. -/
  yields : ∀ n, items n (ofCursor s) = upToStop (answers n s)
    ++ List.replicate (n - (upToStop (answers n s)).length) (.ok none)
  /-- As many reads have been made. -/
  leaves : ∀ n, (after n (ofCursor s)).cursor = Cursor.after (upToStop (answers n s)).length s
  /-- On a log there are these reads and no others. -/
  reads : ∀ n, (after n (ofCursor (Logged.mk s []))).cursor.log = upToStop (answers n s)
  /-- Collecting the items returns what draining returns and leaves the cursor where draining leaves
  it. -/
  collects : ∀ outcome rest,
    (∃ it, Collects (ofCursor s) outcome it ∧ it.cursor = rest) ↔ Drains s outcome rest
  /-- There is no other way in which it could return. -/
  unique : ∀ outcome rest outcome' rest', Drains s outcome rest → Drains s outcome' rest' →
    outcome = outcome' ∧ rest = rest'
  /-- And it returns, unless there are frames forever. -/
  returns : (∃ outcome rest, Drains s outcome rest)
    ↔ ∃ n, ∃ answer ∈ answers n s, ∀ frame, answer ≠ .ok (some frame)

/-- All that there is to say of iterating over a cursor, put together. -/
theorem iterates (s : σ) : Iterates s where
  yields n := items_eq n s
  leaves n := after_eq n s
  reads n := by rw [after_logged]
  collects _ _ := collects_iff
  unique _ _ _ _ := Drains.unique
  returns := exists_drains_iff

/-- **Iterating stops where draining stops**, for every cursor in every state, whatever it has
behind an end or an error. The iterator passes on what successive reads answer, up to the first end
or the first error, and reads the cursor no more. To collect its items into one list or a failure is
to drain the cursor: both return the same, after the same reads, and leave the cursor in the same
state. Where cursors have a budget, draining is what `Cursor.drain` computes. -/
theorem stops_where_draining_stops :
    (∀ (σ : Type) [Cursor σ] (s : σ), Iterates s)
      ∧ ∀ (σ : Type) [FiniteCursor σ] (s rest : σ) (outcome : Outcome FrameError (List Bytes)),
        (∃ it, Collects (ofCursor s) outcome it ∧ it.cursor = rest)
          ↔ drain s = (outcome, rest) :=
  ⟨fun _ _ s => iterates s, fun _ _ _ _ _ => collects_iff.trans drains_iff⟩

/-- A frame, an end, a frame, a failure, and a frame behind it. -/
def resumingReader : LengthPrefixed.Reader :=
  .ofSource [.data [1, 97], .endOfInput, .data [1, 98], .fail (.plain .timedOut "late"),
    .data [1, 99]] 9

theorem stops_where_draining_stops_resumingReader :
    items 4 (ofCursor resumingReader) = [.ok (some [97]), .ok none, .ok none, .ok none]
      ∧ (after 4 (ofCursor (Logged.mk resumingReader []))).cursor.log
        = [.ok (some [97]), .ok none]
      ∧ items 4 (ofCursor (Cursor.after 2 resumingReader))
        = [.ok (some [98]), .error (.io .readLengthPrefix (.plain .timedOut "late")), .ok none,
          .ok none]
      ∧ drain resumingReader = (.ok [[97]], Cursor.after 2 resumingReader)
      ∧ ∃ it, Collects (ofCursor resumingReader) (.ok [[97]]) it
        ∧ it.cursor = Cursor.after 2 resumingReader := by
  obtain ⟨hiterates, hdrain⟩ := stops_where_draining_stops
  have hanswers : answers 4 resumingReader = [.ok (some [97]), .ok none, .ok (some [98]),
      .error (.io .readLengthPrefix (.plain .timedOut "late"))] := by decide +kernel
  have hlater : answers 4 (Cursor.after 2 resumingReader) = [.ok (some [98]),
      .error (.io .readLengthPrefix (.plain .timedOut "late")), .ok (some [99]), .ok none] := by
    decide +kernel
  -- a frame and an end, which is as far as collecting goes
  have hframe : (read resumingReader).1 = .ok (some [97]) := by decide +kernel
  have hend : (read (Cursor.after 1 resumingReader)).1 = .ok none := by decide +kernel
  have hdrains : Drains resumingReader (.ok [[97]]) (Cursor.after 2 resumingReader) :=
    .frame (Prod.ext hframe rfl) (.ended (Prod.ext hend rfl))
  have hcollects := ((hiterates _ resumingReader).collects _ _).mpr hdrains
  refine ⟨?_, ?_, ?_, (hdrain _ _ _ _).mp hcollects, hcollects⟩
  · rw [(hiterates _ resumingReader).yields, hanswers]
    rfl
  · rw [(hiterates _ resumingReader).reads, hanswers]
    rfl
  · rw [(hiterates _ _).yields, hlater]
    rfl

end Frames

end MessageFraming
