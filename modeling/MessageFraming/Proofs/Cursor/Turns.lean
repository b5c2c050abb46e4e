import MessageFraming.Proofs.Cursor.Answers
import Mathlib.Data.List.Induction

/-!
# Cursors of a sequence take turns

A read of a sequence may read several of its cursors: those that report their end are dropped on the
way to one that has something else to report. Here these reads are recorded, each with the place of
its cursor in the list. A cursor may be any state machine, and may well have more frames behind an
end.

* `Sequence.record`: a read of the cursors with a record of what it reads. But for the record it is
  `readFirst` (`record_readFirst`).
* `Sequence.turns`: the record of all reads so far.
* `Sequence.Passed`: what has become of a list of cursors behind these turns. A single turn keeps it
  (`Passed.ended`, `Passed.answered`), so a read does (`Passed.read`) and all reads do
  (`passed_turns`).
* `Sequence.InTurn`: what that means for who reads the sequence (`inTurn`).
-/

namespace MessageFraming

namespace Cursor

variable {σ : Type} [Cursor σ]

theorem after_succ (n : Nat) (s : σ) : after (n + 1) s = (read (after n s)).2 := by
  induction n generalizing s with
  | zero => rfl
  | succ n ih => exact ih (read s).2

/-- The last of some reads comes behind the others. -/
theorem answers_concat (n : Nat) (s : σ) :
    answers (n + 1) s = answers n s ++ [(read (after n s)).1] :=
  answers_add n 1 s

end Cursor

namespace Sequence

/-- A read of one cursor: the place of the cursor among all that there were, and its answer. -/
structure Turn where
  place : Nat
  answer : FrameResult
deriving Repr, DecidableEq

/-- The cursor has reported its end. -/
def Turn.isEnd (t : Turn) : Bool := t.answer == .ok none

/-- What the cursor at `place` has answered, in order. -/
def answersAt (place : Nat) (made : List Turn) : List FrameResult :=
  (made.filter (·.place == place)).map (·.answer)

/-- All answers but ends, in order. -/
def results (made : List Turn) : List FrameResult := (made.filter (!·.isEnd)).map (·.answer)

/-- How many cursors have reported their end. -/
def ended (made : List Turn) : Nat := made.countP Turn.isEnd

@[simp] theorem answersAt_append (place : Nat) (a b : List Turn) :
    answersAt place (a ++ b) = answersAt place a ++ answersAt place b := by
  rw [answersAt, List.filter_append, List.map_append]
  rfl

theorem answersAt_self (place : Nat) (answer : FrameResult) :
    answersAt place [⟨place, answer⟩] = [answer] := by
  simp [answersAt]

theorem answersAt_of_ne {place other : Nat} (h : place ≠ other) (answer : FrameResult) :
    answersAt other [⟨place, answer⟩] = [] := by
  simp [answersAt, h]

@[simp] theorem results_append (a b : List Turn) : results (a ++ b) = results a ++ results b := by
  rw [results, List.filter_append, List.map_append]
  rfl

theorem results_of_ends {made : List Turn} (h : ∀ turn ∈ made, turn.isEnd) : results made = [] := by
  rw [results, List.filter_eq_nil_iff.mpr fun turn hmem => by simp [h turn hmem], List.map_nil]

theorem results_of_ne {answer : FrameResult} (h : answer ≠ .ok none) (place : Nat) :
    results [⟨place, answer⟩] = [answer] := by
  simp [results, Turn.isEnd, h]

@[simp] theorem ended_append (a b : List Turn) : ended (a ++ b) = ended a + ended b :=
  List.countP_append

theorem ended_of_end (place : Nat) : ended [⟨place, .ok none⟩] = 1 := rfl

theorem ended_of_ne {answer : FrameResult} (h : answer ≠ .ok none) (place : Nat) :
    ended [⟨place, answer⟩] = 0 := by
  simp [ended, Turn.isEnd, h]

variable {σ : Type} [Cursor σ]

/-! ## One read -/

/-- A cursor at its end lets the next one answer. -/
theorem readFirst_of_end {c : σ} (h : (Cursor.read c).1 = .ok none) (cs : List σ) :
    readFirst (c :: cs) = readFirst cs := by
  rw [readFirst]
  split
  · rfl
  · rename_i result rest hne hread
    rw [hread] at h
    exact absurd h hne

/-- A cursor that answers keeps its place. -/
theorem readFirst_of_answer {c : σ} (h : (Cursor.read c).1 ≠ .ok none) (cs : List σ) :
    readFirst (c :: cs) = ((Cursor.read c).1, (Cursor.read c).2 :: cs) := by
  rw [readFirst]
  split
  · rename_i rest hread
    rw [hread] at h
    exact absurd rfl h
  · rename_i result rest hne hread
    rw [hread]

theorem read_mk (cs : List σ) :
    Cursor.read (mk cs) = ((readFirst cs).1, mk (readFirst cs).2) := rfl

/-- A read finds all cursors at their end, or passes on what the first other one answers. -/
theorem readFirst_cases (cs : List σ) :
    ((∀ c ∈ cs, (Cursor.read c).1 = .ok none) ∧ readFirst cs = (.ok none, []))
      ∨ ∃ before c behind, cs = before ++ c :: behind
        ∧ (∀ d ∈ before, (Cursor.read d).1 = .ok none) ∧ (Cursor.read c).1 ≠ .ok none
        ∧ readFirst cs = ((Cursor.read c).1, (Cursor.read c).2 :: behind) := by
  induction cs with
  | nil => exact Or.inl ⟨fun c hmem => absurd hmem List.not_mem_nil, rfl⟩
  | cons c cs ih =>
    by_cases h : (Cursor.read c).1 = .ok none
    · -- the first cursor is one of those at their ends
      rw [readFirst_of_end h]
      rcases ih with ⟨hall, hread⟩ | ⟨before, d, behind, rfl, hall, hne, hread⟩
      · exact Or.inl ⟨List.forall_mem_cons.mpr ⟨h, hall⟩, hread⟩
      · exact Or.inr ⟨c :: before, d, behind, rfl, List.forall_mem_cons.mpr ⟨h, hall⟩, hne, hread⟩
    · exact Or.inr ⟨[], c, cs, rfl, by simp, h, readFirst_of_answer h cs⟩

/-- A read that reports the end finds all cursors at theirs. -/
theorem read_eq_end {q rest : Sequence σ} (h : Cursor.read q = (.ok none, rest)) :
    (∀ c ∈ q.cursors, (Cursor.read c).1 = .ok none) ∧ rest.cursors = [] := by
  obtain ⟨cs⟩ := q
  rw [read_mk] at h
  rcases readFirst_cases cs with ⟨hall, hfirst⟩ | ⟨_, _, _, -, -, hne, hfirst⟩
  · rw [hfirst] at h
    cases h
    exact ⟨hall, rfl⟩
  · rw [hfirst] at h
    exact absurd (Prod.mk.inj h).1 hne

/-- A read with something else to report is that of the first cursor that has not ended. -/
theorem read_eq_answer {q rest : Sequence σ} {answer : FrameResult}
    (h : Cursor.read q = (answer, rest)) (hne : answer ≠ .ok none) :
    ∃ before c c' behind, q.cursors = before ++ c :: behind
      ∧ (∀ d ∈ before, (Cursor.read d).1 = .ok none) ∧ Cursor.read c = (answer, c')
      ∧ rest.cursors = c' :: behind := by
  obtain ⟨cs⟩ := q
  rw [read_mk] at h
  rcases readFirst_cases cs with ⟨-, hfirst⟩ | ⟨before, c, behind, hcs, hends, -, hfirst⟩
  · rw [hfirst] at h
    exact absurd (Prod.mk.inj h).1.symm hne
  · rw [hfirst] at h
    cases h
    exact ⟨before, c, (Cursor.read c).2, behind, hcs, hends, rfl, rfl⟩

/-- `readFirst` with a record of the cursors that it reads. The first of `cursors` stands at
`place`. -/
def record (place : Nat) : List σ → List Turn × FrameResult × List σ
  | [] => ([], .ok none, [])
  | cursor :: cursors =>
    match Cursor.read cursor with
    | (.ok none, _) =>
      let (made, rest) := record (place + 1) cursors
      (⟨place, .ok none⟩ :: made, rest)
    | (answer, rest) => ([⟨place, answer⟩], answer, rest :: cursors)

/-- A cursor at its end has its turn, and then the next one has. -/
theorem record_of_end {c : σ} (h : (Cursor.read c).1 = .ok none) (place : Nat) (cs : List σ) :
    record place (c :: cs)
      = (⟨place, .ok none⟩ :: (record (place + 1) cs).1, (record (place + 1) cs).2) := by
  rw [record]
  split
  · rfl
  · rename_i answer rest hne hread
    rw [hread] at h
    exact absurd h hne

/-- A cursor that answers has the only turn. -/
theorem record_of_answer {c : σ} (h : (Cursor.read c).1 ≠ .ok none) (place : Nat) (cs : List σ) :
    record place (c :: cs)
      = ([⟨place, (Cursor.read c).1⟩], (Cursor.read c).1, (Cursor.read c).2 :: cs) := by
  rw [record]
  split
  · rename_i rest hread
    rw [hread] at h
    exact absurd rfl h
  · rename_i answer rest hne hread
    rw [hread]

/-- **But for the record nothing is different.** -/
theorem record_readFirst (place : Nat) (cs : List σ) : (record place cs).2 = readFirst cs := by
  induction cs generalizing place with
  | nil => rfl
  | cons c cs ih =>
    by_cases h : (Cursor.read c).1 = .ok none
    · rw [record_of_end h, readFirst_of_end h]
      exact ih (place + 1)
    · rw [record_of_answer h, readFirst_of_answer h]

/-- The record begins with the first cursor. -/
theorem record_cons (place : Nat) (c : σ) (cs : List σ) :
    ∃ later, (record place (c :: cs)).1 = ⟨place, (Cursor.read c).1⟩ :: later := by
  by_cases h : (Cursor.read c).1 = .ok none
  · rw [record_of_end h, h]
    exact ⟨_, rfl⟩
  · rw [record_of_answer h]
    exact ⟨[], rfl⟩

/-- A read ends with an answer of a cursor, which stays in front, or it has come to the end of all
of them. -/
theorem record_cases (place : Nat) (cs : List σ) :
    ((readFirst cs).1 = .ok none ∧ (readFirst cs).2 = []
        ∧ ∀ turn ∈ (record place cs).1, turn.isEnd)
      ∨ ((readFirst cs).1 ≠ .ok none ∧ (readFirst cs).2 ≠ []
        ∧ ∃ before last, (record place cs).1 = before ++ [⟨last, (readFirst cs).1⟩]
          ∧ ∀ turn ∈ before, turn.isEnd) := by
  induction cs generalizing place with
  | nil => exact Or.inl ⟨rfl, rfl, fun turn hmem => absurd hmem List.not_mem_nil⟩
  | cons c cs ih =>
    by_cases h : (Cursor.read c).1 = .ok none
    · -- an end is noted, and the next cursor has its turn
      have hfirst : Turn.isEnd ⟨place, .ok none⟩ := rfl
      rw [readFirst_of_end h, record_of_end h]
      rcases ih (place + 1) with ⟨hend, hnil, hall⟩ | ⟨hne, hleft, before, last, hmade, hall⟩
      · exact Or.inl ⟨hend, hnil, List.forall_mem_cons.mpr ⟨hfirst, hall⟩⟩
      · refine Or.inr ⟨hne, hleft, ⟨place, .ok none⟩ :: before, last, ?_,
          List.forall_mem_cons.mpr ⟨hfirst, hall⟩⟩
        rw [hmade, List.cons_append]
    · rw [readFirst_of_answer h, record_of_answer h]
      exact Or.inr ⟨h, List.cons_ne_nil _ _, [], place, rfl, by simp⟩

/-! ## All reads so far -/

/-- The reads of cursors in the first `n` reads of a sequence. -/
def turns (cursors : List σ) : Nat → List Turn
  | 0 => []
  | n + 1 =>
    let q : Sequence σ := Cursor.after n ⟨cursors⟩
    turns cursors n ++ (record (cursors.length - q.remaining) q.cursors).1

/-- What is left behind one more call are the cursors that it has left. -/
theorem cursors_after_succ (cursors : List σ) (n : Nat) :
    (Cursor.after (n + 1) (mk cursors)).cursors
      = (readFirst (Cursor.after n (mk cursors)).cursors).2 := by
  rw [Cursor.after_succ]
  rfl

/-- What has become of `cursors` behind the turns `made`: those that have reported their end are
gone, and `left` are the others. Each of them has been read as often as it had turns. -/
structure Passed (cursors : List σ) (made : List Turn) (left : List σ) : Prop where
  length_eq : ended made + left.length = cursors.length
  left_eq : ∀ i : Nat, left[i]? = cursors[ended made + i]?.map
    (Cursor.after (answersAt (ended made + i) made).length)
  own : ∀ (place : Nat) (c : σ), cursors[place]? = some c →
    answersAt place made = Cursor.answers (answersAt place made).length c
  place_lt : ∀ turn ∈ made, turn.place < cursors.length
  /-- A turn is that of the first cursor that has not reported its end. -/
  placed : ∀ (before : List Turn) (turn : Turn) (later : List Turn),
    made = before ++ turn :: later → turn.place = ended before

/-- At first no cursor has had its turn. -/
theorem passed_nil (cursors : List σ) : Passed cursors [] cursors where
  length_eq := Nat.zero_add _
  left_eq i := by
    show cursors[i]? = cursors[0 + i]?.map id
    rw [Nat.zero_add, Option.map_id, id]
  own _ _ _ := rfl
  place_lt _ hmem := absurd hmem List.not_mem_nil
  placed before turn later h := by cases before <;> cases h

namespace Passed

variable {cursors left : List σ} {made : List Turn} {c : σ}

/-- The first cursor that is left has been read by its own turns only. -/
theorem head (h : Passed cursors made (c :: left)) :
    ∃ c₀, cursors[ended made]? = some c₀
      ∧ c = Cursor.after (answersAt (ended made) made).length c₀ := by
  have hhead := h.left_eq 0
  rw [List.getElem?_cons_zero, Nat.add_zero] at hhead
  obtain ⟨c₀, hc₀, hc⟩ := Option.map_eq_some_iff.mp hhead.symm
  exact ⟨c₀, hc₀, hc.symm⟩

/-- Its next turn is its own next answer, and no other cursor notices. -/
theorem own_concat (h : Passed cursors made (c :: left)) (place : Nat) (d : σ)
    (hd : cursors[place]? = some d) :
    answersAt place (made ++ [⟨ended made, (Cursor.read c).1⟩])
      = Cursor.answers (answersAt place (made ++ [⟨ended made, (Cursor.read c).1⟩])).length d := by
  rw [answersAt_append]
  -- the turn is that of this cursor, or of another one
  by_cases hplace : ended made = place
  · subst hplace
    obtain ⟨c₀, hc₀, hc⟩ := h.head
    rw [hd] at hc₀
    cases hc₀
    rw [answersAt_self, List.length_append, List.length_singleton, Cursor.answers_concat, ← hc,
      ← h.own _ d hd]
  · rw [answersAt_of_ne hplace, List.append_nil]
    exact h.own place d hd

/-- The turn that is made next belongs to a cursor that was there at the start. -/
theorem place_lt_concat (h : Passed cursors made (c :: left)) (answer : FrameResult) :
    ∀ turn ∈ made ++ [⟨Sequence.ended made, answer⟩], turn.place < cursors.length := by
  have hlength := h.length_eq
  rw [List.length_cons] at hlength
  intro turn hmem
  rcases List.mem_append.mp hmem with hmem | hmem
  · exact h.place_lt turn hmem
  · rw [List.mem_singleton.mp hmem]
    show Sequence.ended made < cursors.length
    omega

/-- It belongs to the first cursor that has not ended yet. -/
theorem placed_concat (h : Passed cursors made left) (answer : FrameResult) :
    ∀ (before : List Turn) (turn : Turn) (later : List Turn),
      made ++ [⟨ended made, answer⟩] = before ++ turn :: later → turn.place = ended before := by
  intro before turn later heq
  rcases List.eq_nil_or_concat later with rfl | ⟨later, last, rfl⟩
  · obtain ⟨rfl, hlast⟩ := List.append_inj' heq rfl
    cases hlast
    rfl
  · rw [List.concat_eq_append, ← List.cons_append, ← List.append_assoc] at heq
    obtain ⟨hmade, -⟩ := List.append_inj' heq rfl
    exact h.placed before turn later hmade

/-- A turn of a cursor that reports its end, and is gone. -/
theorem ended (h : Passed cursors made (c :: left)) (hend : (Cursor.read c).1 = .ok none) :
    Passed cursors (made ++ [⟨Sequence.ended made, .ok none⟩]) left where
  length_eq := by
    rw [← h.length_eq, ended_append, ended_of_end, List.length_cons]
    omega
  left_eq i := by
    have hnext := h.left_eq (i + 1)
    rw [List.getElem?_cons_succ] at hnext
    have hplace : Sequence.ended made + 1 + i = Sequence.ended made + (i + 1) := by omega
    rw [ended_append, ended_of_end, hplace, answersAt_append, answersAt_of_ne (by omega),
      List.append_nil]
    exact hnext
  own place d hd := by
    have hown := h.own_concat place d hd
    rwa [hend] at hown
  place_lt := h.place_lt_concat _
  placed := h.placed_concat _

/-- A turn of a cursor that reports something else, and stays. -/
theorem answered (h : Passed cursors made (c :: left)) (hne : (Cursor.read c).1 ≠ .ok none) :
    Passed cursors (made ++ [⟨Sequence.ended made, (Cursor.read c).1⟩])
      ((Cursor.read c).2 :: left) where
  length_eq := by
    rw [← h.length_eq, ended_append, ended_of_ne hne, List.length_cons, List.length_cons]
    rfl
  left_eq i := by
    rw [ended_append, ended_of_ne hne, Nat.add_zero, answersAt_append]
    cases i with
    | zero =>
      -- the first cursor has answered once more, and the others are as they were
      obtain ⟨c₀, hc₀, hc⟩ := h.head
      rw [Nat.add_zero, hc₀, answersAt_self, List.length_append, List.length_singleton,
        Option.map_some, Cursor.after_succ, ← hc, List.getElem?_cons_zero]
    | succ i =>
      have hlater := h.left_eq (i + 1)
      rw [List.getElem?_cons_succ] at hlater ⊢
      rw [answersAt_of_ne (by omega), List.append_nil]
      exact hlater
  own := h.own_concat
  place_lt := h.place_lt_concat _
  placed := h.placed_concat _

/-- **A read is a row of turns.** Induction on the cursors that are left. -/
theorem read (h : Passed cursors made left) :
    Passed cursors (made ++ (record (Sequence.ended made) left).1) (readFirst left).2 := by
  induction left generalizing made with
  | nil =>
    rw [record, List.append_nil]
    exact h
  | cons c left ih =>
    by_cases hend : (Cursor.read c).1 = .ok none
    · -- the first cursor is at its end, and what is left has its turn
      have hlater := ih (h.ended hend)
      rw [ended_append, ended_of_end, List.append_assoc, List.singleton_append] at hlater
      rw [readFirst_of_end hend, record_of_end hend]
      exact hlater
    · rw [readFirst_of_answer hend, record_of_answer hend]
      exact h.answered hend

/-- The cursors that have reported their end are the first ones. Induction on the turns, from the
last one. -/
theorem end_mem_iff (h : ∀ (before : List Turn) (turn : Turn) (later : List Turn),
    made = before ++ turn :: later → turn.place = Sequence.ended before) (place : Nat) :
    ⟨place, .ok none⟩ ∈ made ↔ place < Sequence.ended made := by
  induction made using List.reverseRecOn with
  | nil => simp [Sequence.ended]
  | append_singleton made turn ih =>
    have hlast := h made turn [] rfl
    have hbefore := ih fun before t later heq => h before t (later ++ [turn]) (by simp [heq])
    obtain ⟨last, answer⟩ := turn
    -- the last turn is that of the first cursor that has not ended
    obtain rfl : last = Sequence.ended made := hlast
    rw [List.mem_append, hbefore, List.mem_singleton, ended_append, Turn.mk.injEq]
    by_cases hend : answer = .ok none
    · subst hend
      rw [ended_of_end]
      simp only [and_true]
      omega
    · rw [ended_of_ne hend]
      simp only [Ne.symm hend, and_false, or_false, Nat.add_zero]

end Passed

/-- Reads behind each other. Induction on their number. -/
theorem passed_turns (cursors : List σ) (n : Nat) :
    Passed cursors (turns cursors n) (Cursor.after n (mk cursors)).cursors := by
  induction n with
  | zero => exact passed_nil cursors
  | succ n ih =>
    have hplace : cursors.length - (Cursor.after n (mk cursors)).remaining
        = ended (turns cursors n) := by
      rw [remaining, ← ih.length_eq, Nat.add_sub_cancel]
    rw [turns, cursors_after_succ, hplace]
    exact ih.read

/-! ## What that means -/

/-- How a sequence of `cursors` has read them in its first `n` reads. -/
structure InTurn (cursors : List σ) (n : Nat) : Prop where
  /-- A cursor is read only after all earlier ones have reported their end, and never again after it
  has reported its own. -/
  ordered : ∀ (before : List Turn) (turn : Turn) (later : List Turn),
    turns cursors n = before ++ turn :: later →
      turn.place < cursors.length ∧ (∀ place < turn.place, ⟨place, .ok none⟩ ∈ before)
        ∧ ⟨turn.place, .ok none⟩ ∉ before
  /-- The answers of a cursor are those of its own successive reads. -/
  own : ∀ (place : Nat) (c : σ), cursors[place]? = some c →
    answersAt place (turns cursors n)
      = Cursor.answers (answersAt place (turns cursors n)).length c
  /-- All answers but ends are passed on in order, and the end is reported once all cursors have
  ended. -/
  passedOn : ∃ ends, Cursor.answers n (mk cursors)
      = results (turns cursors n) ++ List.replicate ends (.ok none)
    ∧ (ends ≠ 0 → (Cursor.after n (mk cursors)).remaining = 0)
  /-- A cursor with another answer than the end stays in front: the next read begins with it. -/
  stays : (Cursor.read (Cursor.after n (mk cursors))).1 ≠ .ok none →
    ∃ before place, turns cursors (n + 1)
        = before ++ [⟨place, (Cursor.read (Cursor.after n (mk cursors))).1⟩]
      ∧ ∃ answer later, turns cursors (n + 2) = turns cursors (n + 1) ++ ⟨place, answer⟩ :: later
  /-- The cursors that are left have been read in these turns and not otherwise. -/
  left_eq : ∀ i : Nat, (Cursor.after n (mk cursors)).cursors[i]?
    = cursors[ended (turns cursors n) + i]?.map
        (Cursor.after (answersAt (ended (turns cursors n) + i) (turns cursors n)).length)
  /-- Those that have not reported their end are counted. -/
  remaining_eq : (Cursor.after n (mk cursors)).remaining
    = ((List.range cursors.length).filter fun place => ⟨place, .ok none⟩ ∉ turns cursors n).length
  /-- Once none is left the end is reported from then on. -/
  finished : (Cursor.after n (mk cursors)).remaining = 0 →
    ∀ m, Cursor.answers m (Cursor.after n (mk cursors)) = List.replicate m (.ok none)

/-- Without cursors every call answers the end. -/
theorem answers_nil (n : Nat) :
    Cursor.answers n (mk (σ := σ) []) = List.replicate n (.ok none) := by
  induction n with
  | zero => rfl
  | succ n ih =>
    rw [Cursor.answers_succ (show Cursor.read (mk (σ := σ) []) = (.ok none, ⟨[]⟩) from rfl), ih,
      List.replicate_succ]

theorem length_filter_range (m n : Nat) (h : m ≤ n) :
    ((List.range n).filter fun i => decide (¬ i < m)).length = n - m := by
  obtain ⟨k, rfl⟩ := Nat.exists_eq_add_of_le h
  have hfront : (List.range m).filter (fun i => decide (¬ i < m)) = [] := by simp
  have hback : ((List.range k).map (m + ·)).filter (fun i => decide (¬ i < m))
      = (List.range k).map (m + ·) := by simp
  rw [List.range_add, List.filter_append, hfront, hback, List.nil_append, List.length_map,
    List.length_range, Nat.add_sub_cancel_left]

/-- Answers are passed on as they come. Induction on the reads. -/
theorem exists_ends (cursors : List σ) (n : Nat) :
    ∃ ends, Cursor.answers n (mk cursors)
        = results (turns cursors n) ++ List.replicate ends (.ok none)
      ∧ (ends ≠ 0 → (Cursor.after n (mk cursors)).cursors = []) := by
  induction n with
  | zero => exact ⟨0, rfl, fun h => absurd rfl h⟩
  | succ n ih =>
    obtain ⟨ends, hanswers, hover⟩ := ih
    rw [Cursor.answers_concat, hanswers, turns, cursors_after_succ]
    have hread : (Cursor.read (Cursor.after n (mk cursors))).1
        = (readFirst (Cursor.after n (mk cursors)).cursors).1 := rfl
    rw [hread]
    rcases record_cases (cursors.length - (Cursor.after n (mk cursors)).remaining)
      (Cursor.after n (mk cursors)).cursors with
      ⟨hend, hnil, hall⟩ | ⟨hne, -, before, last, hmade, hall⟩
    · refine ⟨ends + 1, ?_, fun _ => hnil⟩
      rw [hend, results_append, results_of_ends hall, List.append_nil, List.append_assoc,
        List.replicate_succ']
    · -- as long as there are answers, there have been no ends
      obtain rfl : ends = 0 := by
        refine Classical.not_not.mp fun hends => hne ?_
        rw [hover hends]
        rfl
      refine ⟨0, ?_, fun h => absurd rfl h⟩
      rw [hmade, results_append, results_append, results_of_ends hall, results_of_ne hne,
        List.replicate_zero, List.append_nil, List.append_nil, List.nil_append]

/-- Behind an answer it is still the turn of that cursor. -/
theorem exists_turns_stay (cursors : List σ) (n : Nat)
    (hne : (Cursor.read (Cursor.after n (mk cursors))).1 ≠ .ok none) :
    ∃ before place, turns cursors (n + 1)
        = before ++ [⟨place, (Cursor.read (Cursor.after n (mk cursors))).1⟩]
      ∧ ∃ answer later,
        turns cursors (n + 2) = turns cursors (n + 1) ++ ⟨place, answer⟩ :: later := by
  have hleft := cursors_after_succ cursors n
  rcases record_cases (cursors.length - (Cursor.after n (mk cursors)).remaining)
    (Cursor.after n (mk cursors)).cursors with
    ⟨hend, -⟩ | ⟨-, hleft', before, place, hmade, -⟩
  · exact absurd hend hne
  · have hturns : turns cursors (n + 1) = (turns cursors n ++ before)
        ++ [⟨place, (Cursor.read (Cursor.after n (mk cursors))).1⟩] := by
      rw [turns, hmade, List.append_assoc]
      rfl
    refine ⟨_, place, hturns, ?_⟩
    -- somebody is left, so there is a next turn, and no end has been reported in between
    obtain ⟨c, cs, hcs⟩ := List.exists_cons_of_ne_nil (hleft.trans_ne hleft')
    obtain ⟨later, hlater⟩ := record_cons
      (cursors.length - (Cursor.after (n + 1) (mk cursors)).remaining) c cs
    rw [← hcs] at hlater
    have hnext : turns cursors (n + 2) = turns cursors (n + 1) ++ _ := rfl
    rw [hlater] at hnext
    have hplace := (passed_turns cursors (n + 1)).placed _ _ [] hturns
    have hnextPlace := (passed_turns cursors (n + 2)).placed _ _ _ hnext
    rw [hturns, ended_append, ended_of_ne hne, Nat.add_zero, ← hplace] at hnextPlace
    have hsame : cursors.length
        - (Cursor.after (n + 1) (mk cursors)).remaining = place := hnextPlace
    rw [hsame] at hnext
    exact ⟨_, later, hnext⟩

/-- **The cursors of a sequence take turns.** -/
theorem inTurn (cursors : List σ) (n : Nat) : InTurn cursors n where
  ordered before turn later heq := by
    have hpassed := passed_turns cursors n
    have hplace := hpassed.placed before turn later heq
    -- the cursors that have ended are those before the one whose turn it is
    have hends : ∀ place, ⟨place, .ok none⟩ ∈ before ↔ place < Sequence.ended before :=
      Passed.end_mem_iff fun b t l hbefore =>
        hpassed.placed b t (l ++ turn :: later) (by simp [heq, hbefore])
    refine ⟨hpassed.place_lt turn (heq ▸ List.mem_append_right _ List.mem_cons_self),
      fun place hlt => (hends place).mpr (hplace ▸ hlt), fun hmem => ?_⟩
    exact Nat.lt_irrefl _ (hplace ▸ (hends _).mp hmem)
  own := (passed_turns cursors n).own
  passedOn := by
    obtain ⟨ends, hanswers, hover⟩ := exists_ends cursors n
    exact ⟨ends, hanswers, fun h => List.length_eq_zero_iff.mpr (hover h)⟩
  stays := exists_turns_stay cursors n
  left_eq := (passed_turns cursors n).left_eq
  remaining_eq := by
    have hpassed := passed_turns cursors n
    have hends := Passed.end_mem_iff hpassed.placed
    have hlength := hpassed.length_eq
    simp only [hends]
    rw [length_filter_range _ _ (by omega), remaining]
    omega
  finished h m := by
    have hnil : Cursor.after n (mk cursors) = ⟨[]⟩ :=
      congrArg Sequence.mk (List.length_eq_zero_iff.mp h)
    rw [hnil, answers_nil]

end Sequence

end MessageFraming
