import MessageFraming.Proofs.Cursor.Turns

/-!
# Draining cursors that may never end

`Cursor.drain` is for cursors of which it is known that they come to an end. Others may be drained
as well, if one does not mind that this may go on forever. Here the loop is a relation: it holds
where the loop returns, and nowhere else.

* `Cursor.Drains s outcome rest`: draining `s` returns `outcome` and leaves `rest`. There is one way
  to return at most (`Drains.unique`), and there is none if frames come forever
  (`exists_drains_iff`). Where a cursor has a budget this is what `Cursor.drain` does
  (`drains_iff`).
* `Cursor.Simulates.drains`: cursors that answer alike are drained alike.
* `Cursor.DrainsEach`: cursors that are drained one after another, up to the first failure.
* `Cursor.drains_sequence_iff`: draining a sequence is just that.
-/

namespace MessageFraming

namespace Cursor

/-- Draining `s` returns `outcome` and leaves `rest`. -/
inductive Drains {σ : Type} [Cursor σ] : σ → Outcome FrameError (List Bytes) → σ → Prop where
  | ended {s rest : σ} : read s = (.ok none, rest) → Drains s (.ok []) rest
  | failed {s rest : σ} {e : FrameError} : read s = (.error e, rest) → Drains s (.error e) rest
  | crashed {s rest : σ} {message : String} :
      read s = (.crash message, rest) → Drains s (.crash message) rest
  | frame {s next rest : σ} {frame : Bytes} {outcome : Outcome FrameError (List Bytes)} :
      read s = (.ok (some frame), next) → Drains next outcome rest →
      Drains s (outcome.map (frame :: ·)) rest

/-- Draining `cursors` one after another returns the frames of all of them, or the first failure,
and leaves `left`. -/
inductive DrainsEach {σ : Type} [Cursor σ] :
    List σ → Outcome FrameError (List Bytes) → List σ → Prop where
  | nil : DrainsEach [] (.ok []) []
  | cons {c rest : σ} {cs left : List σ} {frames : List Bytes}
      {outcome : Outcome FrameError (List Bytes)} : Drains c (.ok frames) rest →
      DrainsEach cs outcome left → DrainsEach (c :: cs) (outcome.map (frames ++ ·)) left
  | broken {c rest : σ} {cs : List σ} {outcome : Outcome FrameError (List Bytes)} :
      Drains c outcome rest → (∀ frames, outcome ≠ .ok frames) →
      DrainsEach (c :: cs) outcome (rest :: cs)

section

variable {σ : Type} [Cursor σ]

/-! ## One read -/

/-- Whatever is no frame is the last answer. -/
theorem Drains.of_last {s next : σ} {last : FrameResult} (hread : read s = (last, next))
    (hlast : ∀ frame, last ≠ .ok (some frame)) : Drains s (last.map fun _ => []) next := by
  rcases last with (_ | frame) | e | message
  · exact .ended hread
  · exact absurd rfl (hlast frame)
  · exact .failed hread
  · exact .crashed hread

/-- Where the first read gives no frame, it is the last one, and its answer decides. -/
theorem Drains.eq_of_last {s next rest : σ} {last : FrameResult}
    {outcome : Outcome FrameError (List Bytes)} (h : Drains s outcome rest)
    (hread : read s = (last, next)) (hlast : ∀ frame, last ≠ .ok (some frame)) :
    outcome = (last.map fun _ => []) ∧ rest = next := by
  cases h with
  | ended hs | failed hs | crashed hs =>
    cases hread.symm.trans hs
    exact ⟨rfl, rfl⟩
  | frame hs =>
    cases hread.symm.trans hs
    exact absurd rfl (hlast _)

/-- Where it gives a frame, the drain goes on behind it. -/
theorem Drains.of_frame {s next rest : σ} {frame : Bytes}
    {outcome : Outcome FrameError (List Bytes)}
    (h : Drains s outcome rest) (hread : read s = (.ok (some frame), next)) :
    ∃ later, outcome = later.map (frame :: ·) ∧ Drains next later rest := by
  cases h with
  | ended hs | failed hs | crashed hs => cases hread.symm.trans hs
  | frame hs hlater =>
    cases hread.symm.trans hs
    exact ⟨_, rfl, hlater⟩

/-! ## One way to return -/

/-- Draining returns in one way only. Induction on the reads of the first of two drains. -/
theorem Drains.unique {s rest rest' : σ} {outcome outcome' : Outcome FrameError (List Bytes)}
    (h : Drains s outcome rest) (h' : Drains s outcome' rest') :
    outcome = outcome' ∧ rest = rest' := by
  induction h generalizing outcome' with
  | ended hread | failed hread | crashed hread =>
    obtain ⟨rfl, rfl⟩ := h'.eq_of_last hread (by simp)
    exact ⟨rfl, rfl⟩
  | frame hread _ ih =>
    obtain ⟨later, rfl, hlater⟩ := h'.of_frame hread
    obtain ⟨rfl, rfl⟩ := ih hlater
    exact ⟨rfl, rfl⟩

/-- **Draining returns unless there are frames forever.** -/
theorem exists_drains_iff {s : σ} :
    (∃ outcome rest, Drains s outcome rest)
      ↔ ∃ n, ∃ answer ∈ answers n s, ∀ frame, answer ≠ .ok (some frame) := by
  constructor
  · rintro ⟨outcome, rest, h⟩
    induction h with
    | ended hread | failed hread | crashed hread =>
      exact ⟨1, _, by rw [answers_succ hread]; exact List.mem_cons_self, by simp⟩
    | frame hread _ ih =>
      obtain ⟨n, answer, hmem, hlast⟩ := ih
      exact ⟨n + 1, answer, by rw [answers_succ hread]; exact List.mem_cons_of_mem _ hmem, hlast⟩
  · rintro ⟨n, answer, hmem, hlast⟩
    induction n generalizing s with
    | zero => exact absurd hmem List.not_mem_nil
    | succ n ih =>
      rcases List.mem_cons.mp hmem with rfl | hmem
      · exact ⟨_, _, .of_last rfl hlast⟩
      · -- the drain goes on behind a frame and ends with any other answer
        by_cases hframe : ∃ frame, (read s).1 = .ok (some frame)
        · obtain ⟨frame, hframe⟩ := hframe
          obtain ⟨outcome, rest, hlater⟩ := ih hmem
          exact ⟨_, _, .frame (Prod.ext hframe rfl) hlater⟩
        · exact ⟨_, _, .of_last rfl fun frame h => hframe ⟨frame, h⟩⟩

end

/-! ## Cursors with a budget -/

/-- **With a budget this is what `drain` computes.** -/
theorem drains_iff {σ : Type} [FiniteCursor σ] {s rest : σ}
    {outcome : Outcome FrameError (List Bytes)} :
    Drains s outcome rest ↔ drain s = (outcome, rest) := by
  constructor
  · intro h
    induction h with
    | ended hread => exact drain_end hread
    | failed hread => exact drain_error hread
    | crashed hread => exact drain_crash hread
    | frame hread _ ih => rw [drain_frame hread, ih]
  · -- induction on the budget
    intro h
    induction hb : FiniteCursor.budget s using Nat.strongRecOn generalizing s outcome with
    | ind n ih =>
      rcases hread : read s with ⟨(_ | frame) | e | message, next⟩
      · rw [drain_end hread] at h
        cases h
        exact .ended hread
      · have hlt : FiniteCursor.budget next < n := hb ▸ FiniteCursor.budget_lt hread
        rw [drain_frame hread] at h
        cases h
        exact .frame hread (ih _ hlt rfl rfl)
      · rw [drain_error hread] at h
        cases h
        exact .failed hread
      · rw [drain_crash hread] at h
        cases h
        exact .crashed hread

section

variable {σ τ : Type} [Cursor σ] [Cursor τ]

/-! ## Cursors that answer alike -/

/-- Cursors that answer alike are drained alike, and alike in how they are left. -/
theorem Simulates.drains {R : σ → τ → Prop} (hR : Simulates R) {s : σ} {t : τ} (h : R s t)
    {outcome : Outcome FrameError (List Bytes)} {rest : σ} (hdrains : Drains s outcome rest) :
    ∃ rest', Drains t outcome rest' ∧ R rest rest' := by
  induction hdrains generalizing t with
  | ended hread =>
    obtain ⟨hanswer, hrest⟩ := hR _ t h
    rw [hread] at hanswer hrest
    exact ⟨_, .ended (Prod.ext hanswer.symm rfl), hrest⟩
  | failed hread =>
    obtain ⟨hanswer, hrest⟩ := hR _ t h
    rw [hread] at hanswer hrest
    exact ⟨_, .failed (Prod.ext hanswer.symm rfl), hrest⟩
  | crashed hread =>
    obtain ⟨hanswer, hrest⟩ := hR _ t h
    rw [hread] at hanswer hrest
    exact ⟨_, .crashed (Prod.ext hanswer.symm rfl), hrest⟩
  -- both give the same frame, and go on alike
  | frame hread _ ih =>
    obtain ⟨hanswer, hrest⟩ := hR _ t h
    rw [hread] at hanswer hrest
    obtain ⟨rest', hlater, hrest'⟩ := ih hrest
    exact ⟨rest', .frame (Prod.ext hanswer.symm rfl) hlater, hrest'⟩

theorem Simulates.flip {R : σ → τ → Prop} (hR : Simulates R) : Simulates fun t s => R s t :=
  fun t s h => ⟨(hR s t h).1.symm, (hR s t h).2⟩

end

section

variable {σ : Type} [Cursor σ]

/-- A drain looks at nothing but what its reads answer. -/
theorem Drains.congr {s s' rest : σ} {outcome : Outcome FrameError (List Bytes)}
    (h : Drains s outcome rest) (hread : read s' = read s) : Drains s' outcome rest := by
  cases h with
  | ended hs => exact .ended (hread.trans hs)
  | failed hs => exact .failed (hread.trans hs)
  | crashed hs => exact .crashed (hread.trans hs)
  | frame hs hlater => exact .frame (hread.trans hs) hlater

/-! ## One cursor after another -/

theorem map_nil_append (outcome : Outcome FrameError (List Bytes)) :
    outcome.map (([] : List Bytes) ++ ·) = outcome := by
  cases outcome <;> rfl

namespace DrainsEach

variable {c rest : σ} {cs left : List σ} {outcome : Outcome FrameError (List Bytes)}

/-- A cursor at its end adds nothing. -/
theorem of_end (h : DrainsEach cs outcome left) (hread : (read c).1 = .ok none) :
    DrainsEach (c :: cs) outcome left := by
  have hcons := h.cons (.ended (Prod.ext hread rfl))
  rwa [map_nil_append] at hcons

/-- A frame of the first cursor is the first frame. -/
theorem of_frame (h : DrainsEach (rest :: cs) outcome left) {frame : Bytes}
    (hread : read c = (.ok (some frame), rest)) :
    DrainsEach (c :: cs) (outcome.map (frame :: ·)) left := by
  cases h with
  | cons hfirst hlater =>
    rw [Outcome.map_map]
    exact .cons (.frame hread hfirst) hlater
  | broken hfirst hne =>
    refine .broken (.frame hread hfirst) fun frames heq => ?_
    cases outcome with
    | ok found => exact hne found rfl
    | error _ | crash _ => cases heq

/-- Cursors at their end add nothing. -/
theorem of_ends {before : List σ} (h : DrainsEach cs outcome left)
    (hends : ∀ d ∈ before, (read d).1 = .ok none) : DrainsEach (before ++ cs) outcome left := by
  induction before with
  | nil => exact h
  | cons d before ih =>
    obtain ⟨hd, hbefore⟩ := List.forall_mem_cons.mp hends
    exact of_end (ih hbefore) hd

end DrainsEach

/-- Draining one cursor in front of others, up to its end. Induction on its frames. -/
theorem Drains.sequence_cons {c rest : σ} {cs : List σ} {frames : List Bytes} {q : Sequence σ}
    {outcome : Outcome FrameError (List Bytes)} (h : Drains c (.ok frames) rest)
    (hlater : Drains (Sequence.mk cs) outcome q) :
    Drains (Sequence.mk (c :: cs)) (outcome.map (frames ++ ·)) q := by
  generalize hfirst : Outcome.ok frames = first at h
  induction h generalizing frames with
  | failed | crashed => cases hfirst
  -- the first cursor is at its end, and the others are drained
  | ended hread =>
    cases hfirst
    rw [map_nil_append]
    refine hlater.congr ?_
    rw [Sequence.read_mk, Sequence.read_mk, Sequence.readFirst_of_end (by rw [hread])]
  | @frame s next rest frame first hread _ ih =>
    cases first with
    | error _ | crash _ => cases hfirst
    | ok found =>
      cases hfirst
      -- a frame of the first cursor is one of the sequence
      have hseq : read (Sequence.mk (s :: cs)) = (.ok (some frame), .mk (next :: cs)) := by
        rw [Sequence.read_mk, Sequence.readFirst_of_answer (by simp [hread]), hread]
      have hframes : outcome.map (frame :: found ++ ·)
          = (outcome.map (found ++ ·)).map (frame :: ·) := by
        rw [Outcome.map_map]
        rfl
      rw [hframes]
      exact .frame hseq (ih rfl)

/-- Draining one cursor in front of others, up to its failure. -/
theorem Drains.sequence_broken {c rest : σ} {outcome : Outcome FrameError (List Bytes)}
    (h : Drains c outcome rest) (hne : ∀ frames, outcome ≠ .ok frames) (cs : List σ) :
    Drains (Sequence.mk (c :: cs)) outcome (.mk (rest :: cs)) := by
  have hread : ∀ {s : σ}, (read s).1 ≠ .ok none →
      read (Sequence.mk (s :: cs)) = ((read s).1, .mk ((read s).2 :: cs)) := fun {s} hs => by
    rw [Sequence.read_mk, Sequence.readFirst_of_answer hs]
  induction h with
  -- exact => a drain that is no success has not come to the end
  | ended => exact absurd rfl (hne [])
  | failed hs =>
    refine .failed ?_
    rw [hread (by simp [hs]), hs]
  | crashed hs =>
    refine .crashed ?_
    rw [hread (by simp [hs]), hs]
  | @frame s next rest frame outcome hs _ ih =>
    refine .frame ?_ (ih fun frames heq => hne (frame :: frames) (by rw [heq]; rfl))
    rw [hread (by simp [hs]), hs]

/-- Induction on the reads of the sequence: each of them passes over cursors at their end. -/
theorem Drains.each {q rest : Sequence σ} {outcome : Outcome FrameError (List Bytes)}
    (h : Drains q outcome rest) : DrainsEach q.cursors outcome rest.cursors := by
  induction h with
  -- all cursors were at their ends
  | ended hread =>
    obtain ⟨hends, hrest⟩ := Sequence.read_eq_end hread
    rw [hrest, ← List.append_nil (Sequence.cursors _)]
    exact DrainsEach.nil.of_ends hends
  | failed hread =>
    obtain ⟨before, c, c', behind, hq, hends, hc, hrest⟩ :=
      Sequence.read_eq_answer hread (by simp)
    rw [hq, hrest]
    exact (DrainsEach.broken (.failed hc) fun _ h => by cases h).of_ends hends
  | crashed hread =>
    obtain ⟨before, c, c', behind, hq, hends, hc, hrest⟩ :=
      Sequence.read_eq_answer hread (by simp)
    rw [hq, hrest]
    exact (DrainsEach.broken (.crashed hc) fun _ h => by cases h).of_ends hends
  -- some first cursors were, and the next one gave the frame
  | frame hread _ ih =>
    obtain ⟨before, c, c', behind, hq, hends, hc, hrest⟩ := Sequence.read_eq_answer hread (by simp)
    rw [hrest] at ih
    rw [hq]
    exact (ih.of_frame hc).of_ends hends

/-- **Draining a sequence is draining its cursors one after another.** -/
theorem drains_sequence_iff {cs left : List σ} {outcome : Outcome FrameError (List Bytes)} :
    Drains (Sequence.mk cs) outcome (.mk left) ↔ DrainsEach cs outcome left := by
  refine ⟨Drains.each, fun h => ?_⟩
  induction h with
  | nil => exact .ended rfl
  | cons hfirst _ ih => exact hfirst.sequence_cons ih
  | broken hfirst hne => exact hfirst.sequence_broken hne _

end

end Cursor

end MessageFraming
