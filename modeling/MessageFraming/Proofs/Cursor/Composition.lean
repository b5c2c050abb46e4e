import MessageFraming.Cursor.Mixed
import MessageFraming.Proofs.Cursor.Drains

/-!
# Compositions of compositions

A sequence of sequences is told from one long sequence by nobody who reads it. Both have the same
cursors at their front, and a composition that has come to its end is dropped by the outer one just
as its last cursor was by the inner one.

* `Cursor.StandsFor flat t`: the next read of `t` is that of the sequence of the cursors `flat t`.
* `Sequence.readFirst_flatMap`: cursors that stand for others may be replaced by them.
* `Sequence.simulates_flatMap`, `Mixed.simulates_join`: so nesting is invisible, for sequences of
  sequences and for joins of any depth.
* `Sequence.composition_flat_and_ordered`: all that is known of compositions put together.
-/

namespace MessageFraming

namespace Cursor

/-- The next read of `t` is that of a sequence of the cursors `flat t`, and unless it has come to
its end it still stands for what is left of them. -/
def StandsFor {σ τ : Type} [Cursor σ] [Cursor τ] (flat : τ → List σ) (t : τ) : Prop :=
  (read t).1 = (Sequence.readFirst (flat t)).1
    ∧ ((read t).1 ≠ .ok none → flat (read t).2 = (Sequence.readFirst (flat t)).2)

end Cursor

namespace Sequence

variable {σ τ : Type} [Cursor σ] [Cursor τ]

/-- If all cursors in front are at their end, those behind answer. -/
theorem readFirst_append_of_end {front : List σ} (h : (readFirst front).1 = .ok none)
    (behind : List σ) : readFirst (front ++ behind) = readFirst behind := by
  induction front with
  | nil => rfl
  | cons c front ih =>
    by_cases hend : (Cursor.read c).1 = .ok none
    · rw [readFirst_of_end hend] at h
      rw [List.cons_append, readFirst_of_end hend, ih h]
    · rw [readFirst_of_answer hend] at h
      exact absurd h hend

/-- If some cursor in front answers, those behind are not touched. -/
theorem readFirst_append_of_answer {front : List σ} (h : (readFirst front).1 ≠ .ok none)
    (behind : List σ) :
    readFirst (front ++ behind) = ((readFirst front).1, (readFirst front).2 ++ behind) := by
  induction front with
  | nil => exact absurd rfl h
  | cons c front ih =>
    by_cases hend : (Cursor.read c).1 = .ok none
    · rw [readFirst_of_end hend] at h ⊢
      rw [List.cons_append, readFirst_of_end hend, ih h]
    · rw [List.cons_append, readFirst_of_answer hend, readFirst_of_answer hend, List.cons_append]

/-- **Cursors that stand for others may be replaced by them.** -/
theorem readFirst_flatMap {flat : τ → List σ} {ts : List τ}
    (h : ∀ t ∈ ts, Cursor.StandsFor flat t) :
    (readFirst ts).1 = (readFirst (ts.flatMap flat)).1
      ∧ (readFirst ts).2.flatMap flat = (readFirst (ts.flatMap flat)).2 := by
  induction ts with
  | nil => exact ⟨rfl, rfl⟩
  | cons t ts ih =>
    obtain ⟨⟨hanswer, hrest⟩, hts⟩ := List.forall_mem_cons.mp h
    rw [List.flatMap_cons]
    by_cases hend : (Cursor.read t).1 = .ok none
    · -- a cursor at its end stands for cursors that all are
      rw [readFirst_of_end hend, readFirst_append_of_end (hanswer.symm.trans hend)]
      exact ih hts
    · -- one that answers stands for one that does
      have hne : (readFirst (flat t)).1 ≠ .ok none := fun hflat => hend (hanswer.trans hflat)
      rw [readFirst_of_answer hend, readFirst_append_of_answer hne, List.flatMap_cons, hrest hend]
      exact ⟨hanswer, rfl⟩

/-- A sequence stands for its cursors. -/
theorem standsFor (q : Sequence σ) : Cursor.StandsFor cursors q := ⟨rfl, fun _ => rfl⟩

/-- **A sequence of sequences answers as one sequence of all their cursors.** -/
theorem simulates_flatMap : Cursor.Simulates fun (q : Sequence (Sequence σ)) (flat : Sequence σ) =>
    q.cursors.flatMap cursors = flat.cursors := by
  intro q flat h
  obtain ⟨hanswer, hrest⟩ := readFirst_flatMap fun (inner : Sequence σ) (_ : inner ∈ q.cursors) =>
    inner.standsFor
  rw [h] at hanswer hrest
  exact ⟨hanswer, hrest⟩

/-- Draining a sequence of sequences is draining all their cursors one after another. -/
theorem drains_flatMap_iff {nested : List (Sequence σ)} {left : List σ}
    {outcome : Outcome FrameError (List Bytes)} :
    Cursor.DrainsEach (nested.flatMap cursors) outcome left
      ↔ ∃ rest : Sequence (Sequence σ), Cursor.Drains (mk nested) outcome rest
        ∧ rest.cursors.flatMap cursors = left := by
  rw [← Cursor.drains_sequence_iff]
  constructor
  · exact simulates_flatMap.flip.drains rfl
  · rintro ⟨rest, hdrains, rfl⟩
    obtain ⟨⟨left⟩, hflat, hleft⟩ := simulates_flatMap.drains rfl hdrains
    cases hleft
    exact hflat

end Sequence

namespace Mixed

mutual

/-- The cursors that are joined in the end. -/
def leaves : Mixed → List Mixed
  | .join cursors => leavesOf cursors
  | .lengthPrefixed reader => [.lengthPrefixed reader]
  | .lines reader => [.lines reader]
  | .inMemory frames => [.inMemory frames]

def leavesOf : List Mixed → List Mixed
  | [] => []
  | cursor :: cursors => cursor.leaves ++ leavesOf cursors

end

/-- The leaves of a row of cursors are those of each, in order. -/
theorem leavesOf_eq (cursors : List Mixed) : leavesOf cursors = cursors.flatMap leaves := by
  induction cursors with
  | nil => rfl
  | cons cursor cursors ih => rw [leavesOf, ih, List.flatMap_cons]

mutual

/-- None of them is a join. -/
theorem leaves_ne_join (m : Mixed) {leaf : Mixed} (h : leaf ∈ m.leaves) (cursors : List Mixed) :
    leaf ≠ .join cursors := by
  cases m with
  | join inner => exact leavesOf_ne_join inner (by rwa [leaves] at h) cursors
  | lengthPrefixed | lines | inMemory =>
    rw [leaves, List.mem_singleton] at h
    rw [h]
    exact Mixed.noConfusion

/-- A leaf is not composed. -/
theorem leavesOf_ne_join (ms : List Mixed) {leaf : Mixed} (h : leaf ∈ leavesOf ms)
    (cursors : List Mixed) : leaf ≠ .join cursors := by
  cases ms with
  | nil => exact absurd h List.not_mem_nil
  | cons m ms =>
    rw [leavesOf] at h
    rcases List.mem_append.mp h with h | h
    · exact leaves_ne_join m h cursors
    · exact leavesOf_ne_join ms h cursors

end

/-- A cursor that remains the only leaf of itself stands for itself. -/
theorem standsFor_of_leaf {m : Mixed} (h : m.leaves = [m])
    (hrest : (Cursor.read m).2.leaves = [(Cursor.read m).2]) : Cursor.StandsFor leaves m := by
  rw [Cursor.StandsFor, h, hrest]
  by_cases hend : (Cursor.read m).1 = .ok none
  · rw [Sequence.readFirst_of_end hend]
    exact ⟨hend, fun hne => absurd hend hne⟩
  · rw [Sequence.readFirst_of_answer hend]
    exact ⟨rfl, fun _ => rfl⟩

theorem read_join (cursors : List Mixed) : Cursor.read (join cursors)
    = ((Sequence.readFirst cursors).1, join (Sequence.readFirst cursors).2) := by
  rw [← readFirst_eq]
  show read (join cursors) = _
  rw [read]

mutual

/-- A join stands for its leaves, whatever its depth. One case for each kind of cursor. -/
theorem standsFor (m : Mixed) : Cursor.StandsFor leaves m := by
  cases m with
  | join cursors =>
    obtain ⟨hanswer, hrest⟩ := Sequence.readFirst_flatMap (standsFor_of_mem cursors)
    rw [Cursor.StandsFor, read_join, leaves, leaves, leavesOf_eq, leavesOf_eq]
    exact ⟨hanswer, fun _ => hrest⟩
  | lengthPrefixed reader => exact standsFor_of_leaf rfl rfl
  | lines reader => exact standsFor_of_leaf rfl rfl
  | inMemory frames => exact standsFor_of_leaf rfl rfl

/-- Every cursor of a row stands for its leaves. -/
theorem standsFor_of_mem (ms : List Mixed) : ∀ m ∈ ms, Cursor.StandsFor leaves m := by
  cases ms with
  | nil => exact fun m h => absurd h List.not_mem_nil
  | cons m ms => exact List.forall_mem_cons.mpr ⟨standsFor m, standsFor_of_mem ms⟩

end

/-- **A join of any depth answers as one sequence of its leaves.** -/
theorem simulates_join : Cursor.Simulates fun (m : Mixed) (flat : Sequence Mixed) =>
    ∃ cursors, m = join cursors ∧ cursors.flatMap leaves = flat.cursors := by
  rintro _ flat ⟨cursors, rfl, h⟩
  obtain ⟨hanswer, hrest⟩ := Sequence.readFirst_flatMap (standsFor_of_mem cursors)
  rw [h] at hanswer hrest
  rw [read_join]
  exact ⟨hanswer, _, rfl, hrest⟩

end Mixed

namespace Sequence

/-- What a sequence of cursors `σ` is to who reads it. -/
structure FlatAndOrdered (σ : Type) [Cursor σ] : Prop where
  inTurn (cursors : List σ) (n : Nat) : InTurn cursors n
  /-- That the turns are recorded makes no difference to what is read. -/
  recorded (place : Nat) (cursors : List σ) : (record place cursors).2 = readFirst cursors
  /-- Draining it is draining its cursors one after another, with all their frames in order or the
  first failure. -/
  drained {cursors left : List σ} {outcome : Outcome FrameError (List Bytes)} :
    Cursor.Drains (mk cursors) outcome (mk left) ↔ Cursor.DrainsEach cursors outcome left
  /-- A sequence of sequences answers as one sequence of all the cursors. -/
  nested_answers (nested : List (Sequence σ)) (n : Nat) :
    Cursor.answers n (mk nested) = Cursor.answers n (mk (nested.flatMap Sequence.cursors))
  /-- And it is drained as one. -/
  nested_drained {nested : List (Sequence σ)} {left : List σ}
    {outcome : Outcome FrameError (List Bytes)} :
    Cursor.DrainsEach (nested.flatMap Sequence.cursors) outcome left
      ↔ ∃ rest : Sequence (Sequence σ), Cursor.Drains (mk nested) outcome rest
        ∧ rest.cursors.flatMap Sequence.cursors = left

/-- **Composition is flat and ordered, and touches each cursor only in its turn**, whatever the
cursors are, and however often the composition is read. A join of joins of any depth, too, answers
as one sequence of its leaves, which are no joins themselves. Where cursors have a budget, draining
is what `Cursor.drain` computes. -/
theorem composition_flat_and_ordered :
    (∀ (σ : Type) [Cursor σ], FlatAndOrdered σ)
      ∧ (∀ cursors : List Mixed,
        (∀ n, Cursor.answers n (Mixed.join cursors)
            = Cursor.answers n (mk (cursors.flatMap Mixed.leaves)))
          ∧ ∀ leaf ∈ cursors.flatMap Mixed.leaves, ∀ inner, leaf ≠ Mixed.join inner)
      ∧ ∀ (σ : Type) [FiniteCursor σ] (s rest : σ) (outcome : Outcome FrameError (List Bytes)),
        Cursor.Drains s outcome rest ↔ Cursor.drain s = (outcome, rest) := by
  refine ⟨fun σ _ => ?_, fun cursors => ⟨fun n => ?_, fun leaf hmem inner => ?_⟩,
    fun _ _ _ _ _ => Cursor.drains_iff⟩
  · exact {
      inTurn := inTurn
      recorded := record_readFirst
      drained := Cursor.drains_sequence_iff
      nested_answers := fun nested n => (simulates_flatMap.answers rfl n).1
      nested_drained := drains_flatMap_iff }
  · exact (Mixed.simulates_join.answers ⟨cursors, rfl, rfl⟩ n).1
  · rw [← Mixed.leavesOf_eq] at hmem
    exact Mixed.leavesOf_ne_join cursors hmem inner

/-- A cursor that gives prescribed answers, and is at its end behind them. -/
structure Scripted where
  answers : List FrameResult
deriving Repr, DecidableEq

instance : Cursor Scripted where
  read
    | ⟨[]⟩ => (.ok none, ⟨[]⟩)
    | ⟨answer :: answers⟩ => (answer, ⟨answers⟩)

/-- Cursors that would go on behind their ends, one that fails on the way, and an empty one. -/
def restlessCursors : List Scripted :=
  [⟨[.ok none, .ok (some [1])]⟩,
    ⟨[.ok (some [2]), .error .poisoned, .ok (some [3]), .ok none, .ok (some [4])]⟩,
    ⟨[]⟩, ⟨[.ok (some [5])]⟩]

theorem composition_flat_and_ordered_restlessCursors :
    Cursor.answers 6 (mk [mk (restlessCursors.take 2), mk [], mk (restlessCursors.drop 2)])
      = [.ok (some [2]), .error .poisoned, .ok (some [3]), .ok (some [5]), .ok none, .ok none]
    ∧ answersAt 1 (turns restlessCursors 5)
        = [.ok (some [2]), .error .poisoned, .ok (some [3]), .ok none]
    ∧ (Cursor.after 4 (mk restlessCursors)).remaining = 1
    ∧ Cursor.Drains (mk restlessCursors) (.error .poisoned)
        (mk (⟨[.ok (some [3]), .ok none, .ok (some [4])]⟩ :: restlessCursors.drop 2))
    ∧ ∀ leaf ∈ [Mixed.join [.inMemory ⟨[[1]]⟩]].flatMap Mixed.leaves,
        ∀ inner, leaf ≠ Mixed.join inner := by
  obtain ⟨hscripted, hmixed, -⟩ := composition_flat_and_ordered
  have hcomposed := hscripted Scripted
  refine ⟨(hcomposed.nested_answers _ 6).trans (by decide), ?_, ?_, hcomposed.drained.mpr ?_,
    (hmixed _).2⟩
  · rw [(hcomposed.inTurn restlessCursors 5).own 1 _ rfl]
    decide
  · rw [(hcomposed.inTurn restlessCursors 4).remaining_eq]
    decide
  · -- the first cursor is at its end, and the second one fails
    have hfails : Cursor.Drains (⟨[.error .poisoned, .ok (some [3]), .ok none, .ok (some [4])]⟩
        : Scripted) (.error .poisoned) ⟨[.ok (some [3]), .ok none, .ok (some [4])]⟩ := .failed rfl
    have hbroken : Cursor.DrainsEach (restlessCursors.drop 1) (.error .poisoned) _ :=
      .broken (.frame rfl hfails) fun _ h => by cases h
    exact hbroken.of_end rfl

end Sequence

end MessageFraming
