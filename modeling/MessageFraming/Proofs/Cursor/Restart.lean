import MessageFraming.Proofs.Cursor.Answers
import MessageFraming.Proofs.Source.Supply

/-!
# Cursors that start afresh behind a failure

A cursor over a source may be read again after a failure of the source. Bytes that the failed read
had taken are lost by then, and the question is what else is: nothing, if all that the cursor knows
is in what it still has in front of it.

* `Framing`: which answer a format gives to which bytes, and which bytes leave it undecided. With
  it, `Framing.Takes` is what a read takes of the row of sights in front of it. Of a source that
  only delivers it takes the first of the bytes (`Framing.Reads.delivers`).
* `Cursor.Follows`: every read takes its share of the row, and behind a stop the cursor is a fresh
  one over the source behind it.
* `Cursor.Recovers`: what this comes to for all reads to come. `Cursor.Follows.recovers` derives it,
  by induction on the row in front of the failure (`Cursor.Follows.answers_failure`) and on the
  number of failures (`Cursor.Follows.eventually_reported`).
-/

namespace MessageFraming

/-- The failure of the source that an answer reports. -/
def Cursor.cause : FrameResult → Option IoError
  | .error (.io _ e) => some e
  | _ => none

/-- Which answers bytes get. -/
structure Framing where
  /-- These bytes are taken for an answer, whatever comes behind them. -/
  whole : Bytes → FrameResult → Prop
  /-- These bytes decide nothing yet. If the source fails now, it is in this step; if it ends, this
  is the answer. -/
  part : Bytes → FrameError.Step → FrameResult → Prop
  /-- Whether empty frames are passed over. -/
  skipsEmpty : Bool
  ne_nil_of_whole : ∀ {bytes answer}, whole bytes answer → bytes ≠ []
  cause_of_whole : ∀ {bytes answer}, whole bytes answer → Cursor.cause answer = none
  cause_of_part : ∀ {bytes step answer}, part bytes step answer → Cursor.cause answer = none

namespace Framing

/-- An answer from bytes, or from bytes and the stop behind them. -/
inductive TakesOne (f : Framing) : List Sight → FrameResult → Prop where
  | whole {bytes : Bytes} {answer : FrameResult} :
      f.whole bytes answer → TakesOne f (Sight.ofBytes bytes) answer
  | part {bytes : Bytes} {step : FrameError.Step} {atEnd : FrameResult} (how : Outcome IoError Unit)
      (behind : Source) : f.part bytes step atEnd →
      TakesOne f (Sight.ofBytes bytes ++ [.stop how behind])
        ((how.mapError (.io step)).bind fun _ => atEnd)

def Skips (f : Framing) (answer : FrameResult) : Prop :=
  f.skipsEmpty = true ∧ answer = .ok (some [])

/-- What one read takes, with the empty frames that it passes over. -/
inductive Takes (f : Framing) : List Sight → FrameResult → Prop where
  | one {seen : List Sight} {answer : FrameResult} :
      f.TakesOne seen answer → ¬ f.Skips answer → Takes f seen answer
  | skip {seen later : List Sight} {skipped answer : FrameResult} :
      f.TakesOne seen skipped → f.Skips skipped → Takes f later answer →
      Takes f (seen ++ later) answer

variable {f : Framing} {seen : List Sight} {answer : FrameResult}

/-- An answer is told from something that was seen. -/
theorem TakesOne.ne_nil (h : f.TakesOne seen answer) : seen ≠ [] := by
  cases h with
  | whole hwhole =>
    intro hnil
    exact f.ne_nil_of_whole hwhole (List.map_eq_nil_iff.mp hnil)
  | part => exact List.append_ne_nil_of_right_ne_nil _ (List.cons_ne_nil _ _)

/-- A failure is reported where it is seen. -/
theorem TakesOne.failures (h : f.TakesOne seen answer) :
    seen.filterMap Sight.failure = (Cursor.cause answer).toList := by
  cases h with
  | whole hwhole => rw [Sight.failures_ofBytes, f.cause_of_whole hwhole, Option.toList_none]
  | part how behind hpart =>
    rw [List.filterMap_append, Sight.failures_ofBytes, List.nil_append]
    cases how with
    | ok _ =>
      rw [Outcome.mapError_ok, Outcome.bind_ok, f.cause_of_part hpart]
      rfl
    | error _ | crash _ => rfl

/-- A failure ends the read that sees it. -/
theorem TakesOne.of_failure {front more : List Sight} {e : IoError} {behind : Source}
    (h : f.TakesOne seen answer) (hseen : seen = front ++ .stop (.error e) behind :: more) :
    more = [] ∧ ∃ step, answer = .error (.io step e) := by
  have hmem : Sight.stop (.error e) behind ∈ seen := by simp [hseen]
  cases h with
  | whole hwhole => exact absurd hmem (Sight.stop_not_mem_ofBytes _ _ _)
  | @part bytes step atEnd how behind' hpart =>
    rcases List.eq_nil_or_concat more with rfl | ⟨more', last, rfl⟩
    · obtain ⟨-, hlast⟩ := List.append_inj' hseen rfl
      cases hlast
      exact ⟨rfl, step, rfl⟩
    · -- the failure would stand among the bytes
      rw [List.concat_eq_append, ← List.cons_append, ← List.append_assoc] at hseen
      obtain ⟨hbytes, -⟩ := List.append_inj' hseen rfl
      have hmem' : Sight.stop (.error e) behind ∈ Sight.ofBytes bytes := by simp [hbytes]
      exact absurd hmem' (Sight.stop_not_mem_ofBytes _ _ _)

theorem Takes.ne_nil (h : f.Takes seen answer) : seen ≠ [] := by
  cases h with
  | one hone => exact hone.ne_nil
  | skip hone => exact List.append_ne_nil_of_left_ne_nil hone.ne_nil _

/-- The failure that was seen is the cause of the answer, and there is at most one. -/
theorem Takes.failures (h : f.Takes seen answer) :
    seen.filterMap Sight.failure = (Cursor.cause answer).toList := by
  induction h with
  | one hone => exact hone.failures
  | skip hone hskips _ ih =>
    rw [List.filterMap_append, hone.failures, ih, hskips.2]
    rfl

/-- A failure that was seen is the last thing that was, and it is reported. -/
theorem Takes.of_failure {front more : List Sight} {e : IoError} {behind : Source}
    (h : f.Takes seen answer) (hseen : seen = front ++ .stop (.error e) behind :: more) :
    more = [] ∧ ∃ step, answer = .error (.io step e) := by
  induction h generalizing front with
  | one hone => exact hone.of_failure hseen
  | @skip seen later skipped answer hone hskips _ ih =>
    rcases List.append_eq_append_iff.mp hseen with ⟨front', -, hlater⟩ | ⟨seen', hfirst, hlater⟩
    · exact ih hlater
    · cases seen' with
      | nil => exact ih (hlater.symm.trans (List.nil_append _).symm)
      | cons sight seen' =>
        -- an empty frame is no failure
        obtain ⟨rfl, -⟩ := List.cons_eq_cons.mp hlater
        obtain ⟨-, step, hanswer⟩ := hone.of_failure hfirst
        cases hskips.2.symm.trans hanswer

/-- A read that takes one answer from the supply `s` and leaves `rest`. -/
inductive Reads (f : Framing) (s : BufferedSource) : FrameResult → BufferedSource → Prop where
  | whole {bytes : Bytes} {answer : FrameResult} {rest : BufferedSource} : f.whole bytes answer →
      s.sights = Sight.ofBytes bytes ++ rest.sights → Reads f s answer rest
  | part {bytes : Bytes} {step : FrameError.Step} {atEnd : FrameResult} {how : Outcome IoError Unit}
      {behind : Source} : f.part bytes step atEnd →
      Passes s.sights (Sight.ofBytes bytes ++ [.stop how behind]) behind.sights →
      Reads f s ((how.mapError (.io step)).bind fun _ => atEnd) (.ofSource behind)

/-- A loop of reads takes what it saw. If that ends with a stop, the reader stands right
behind it. -/
theorem Reads.takesOne {s rest : BufferedSource} (h : f.Reads s answer rest) :
    ∃ seen, f.TakesOne seen answer ∧ Passes s.sights seen rest.sights
      ∧ ∀ how behind, seen.getLast? = some (.stop how behind) → rest = .ofSource behind := by
  cases h with
  | whole hwhole hsights =>
    refine ⟨_, .whole hwhole, .of_eq hsights, fun how behind hlast => ?_⟩
    exact absurd (List.mem_of_getLast? hlast) (Sight.stop_not_mem_ofBytes _ _ _)
  | part hpart hpasses =>
    refine ⟨_, .part _ _ hpart, hpasses, fun how' behind' hlast => ?_⟩
    rw [List.getLast?_concat] at hlast
    cases hlast
    rfl

/-- A read from a source that only delivers takes the first of the bytes, or comes to the end of
them. -/
theorem Reads.delivers {s rest : BufferedSource} {bytes : Bytes} (h : f.Reads s answer rest)
    (hs : s.Delivers bytes) :
    (∃ taken later, bytes = taken ++ later ∧ f.whole taken answer ∧ rest.Delivers later)
      ∨ ∃ step, f.part bytes step answer ∧ rest.Delivers [] := by
  have hrow := BufferedSource.delivers_iff.mp hs
  cases h with
  | whole hwhole hsights =>
    obtain ⟨later, hcut, hlater⟩ := hrow.of_taken hsights
    exact Or.inl ⟨_, later, hcut, hwhole, BufferedSource.delivers_iff.mpr hlater⟩
  | part hpart hpasses =>
    obtain ⟨rfl, rfl, hbehind⟩ := hrow.of_stop hpasses
    exact Or.inr ⟨_, hpart, BufferedSource.delivers_iff.mpr hbehind⟩

end Framing

namespace Cursor

/-- The failures that answers report. -/
def reported (answers : List FrameResult) : List IoError := answers.filterMap cause

section

variable {σ : Type} [Cursor σ]

/-- A cursor that is started over a source, takes its answers from it as `f` says, and knows nothing
but what it has in front of it: `Stands s c` if that is `s`. -/
structure Follows (f : Framing) (start : Source → σ) (Stands : BufferedSource → σ → Prop) :
    Prop where
  start : ∀ source, Stands (.ofSource source) (start source)
  takes : ∀ {s c}, Stands s c → ∃ seen rest, f.Takes seen (read c).1
    ∧ Passes s.sights seen rest.sights ∧ Stands rest (read c).2
    ∧ ∀ how behind, seen.getLast? = some (.stop how behind) → rest = .ofSource behind
  alike : ∀ {s c c'}, Stands s c → Stands s c' → ∀ n, answers n c = answers n c'

/-- What a failure of the source comes to for those who go on reading. -/
structure Recovers (f : Framing) (start : Source → σ) : Prop where
  /-- What is seen in front of a failure is taken piece by piece, one answer for each, and what is
  left then decides nothing yet. The next answer is the failure, and all others are those of a fresh
  cursor over the events behind. -/
  restarts : ∀ before e behind, e.isInterrupted = false → ∃ pieces answered last step,
    Source.sightsBefore before (.fail e :: behind) = pieces.flatten ++ last
      ∧ List.Forall₂ f.Takes pieces answered
      ∧ f.Takes (last ++ [.stop (.error e) behind]) (.error (.io step e))
      ∧ ∀ n, answers (answered.length + 1 + n) (start (before ++ .fail e :: behind))
          = answered ++ .error (.io step e) :: answers n (start behind)
  /-- Each failure is reported once, in order, by one read each. -/
  reports : ∀ source, (∀ n, reported (answers n (start source)) <+: source.failures)
    ∧ ∃ enough, ∀ n, enough ≤ n → reported (answers n (start source)) = source.failures

namespace Follows

variable {f : Framing} {start : Source → σ} {Stands : BufferedSource → σ → Prop}
  {s : BufferedSource} {c : σ}

/-- **Reading up to a failure and past it.** Strong induction on what is seen in front of it. -/
theorem answers_failure (h : Follows f start Stands) {front more : List Sight} {e : IoError}
    {behind : Source} (hs : Stands s c)
    (hsights : s.sights = front ++ .stop (.error e) behind :: more) :
    ∃ pieces answered last step, front = pieces.flatten ++ last
      ∧ List.Forall₂ f.Takes pieces answered
      ∧ f.Takes (last ++ [.stop (.error e) behind]) (.error (.io step e))
      ∧ ∀ n, answers (answered.length + 1 + n) c
          = answered ++ .error (.io step e) :: answers n (start behind) := by
  induction hlen : front.length using Nat.strongRecOn generalizing s c front more with
  | ind len ih =>
    obtain ⟨seen, rest, htakes, ⟨k, hpasses, -⟩, hrest, hfresh⟩ := h.takes hs
    rw [hsights, List.append_assoc, List.cons_append] at hpasses
    have hcases : (∃ front', front = seen ++ front'
          ∧ rest.sights
            = front' ++ .stop (.error e) behind :: (more ++ List.replicate k Sight.final))
        ∨ ∃ seen', seen = front ++ .stop (.error e) behind :: seen' := by
      rcases List.append_eq_append_iff.mp hpasses with hwithin | ⟨seen', hseen, hlater⟩
      · exact Or.inl hwithin
      · cases seen' with
        | nil => exact Or.inl ⟨[], by simpa using hseen.symm, hlater.symm⟩
        | cons sight seen' =>
          obtain ⟨rfl, -⟩ := List.cons_eq_cons.mp hlater
          exact Or.inr ⟨seen', hseen⟩
    rcases hcases with ⟨front', rfl, hahead⟩ | ⟨seen', hseen⟩
    · -- the failure is still ahead
      have hpos := List.length_pos_iff.mpr htakes.ne_nil
      rw [List.length_append] at hlen
      obtain ⟨pieces, answered, last, step, rfl, hpieces, hlast, hanswers⟩ :=
        ih _ (by omega) hrest hahead rfl
      refine ⟨seen :: pieces, (read c).1 :: answered, last, step, ?_, .cons htakes hpieces, hlast,
        fun n => ?_⟩
      · rw [List.flatten_cons, List.append_assoc]
      · have hcount : ((read c).1 :: answered).length + 1 + n = answered.length + 1 + n + 1 := by
          rw [List.length_cons]
          omega
        rw [hcount, answers, hanswers, List.cons_append]
    · -- this read meets it
      obtain ⟨rfl, step, hanswer⟩ := htakes.of_failure hseen
      have hbehind := hfresh (.error e) behind (by rw [hseen, List.getLast?_concat])
      subst hbehind
      refine ⟨[], [], front, step, rfl, .nil, ?_, fun n => ?_⟩
      · rw [← hseen, ← hanswer]
        exact htakes
      · rw [List.length_nil, Nat.zero_add, Nat.add_comm, answers, hanswer, List.nil_append,
          h.alike hrest (h.start behind)]

/-- What is reported has been seen, and what is not is still ahead. -/
theorem reported_append (h : Follows f start Stands) (hs : Stands s c) (n : Nat) :
    ∃ ahead, reported (answers n c) ++ ahead = s.sights.filterMap Sight.failure := by
  induction n generalizing s c with
  | zero => exact ⟨_, rfl⟩
  | succ n ih =>
    obtain ⟨seen, rest, htakes, hpasses, hrest, -⟩ := h.takes hs
    obtain ⟨ahead, hahead⟩ := ih hrest
    refine ⟨ahead, ?_⟩
    rw [← hpasses.failures, htakes.failures, ← hahead, answers, reported, List.filterMap_cons]
    cases cause (read c).1 <;> rfl

/-- Failures are reported in order, and none of them twice. -/
theorem reported_prefix (h : Follows f start Stands) (source : Source) (n : Nat) :
    reported (answers n (start source)) <+: source.failures := by
  obtain ⟨ahead, hahead⟩ := h.reported_append (h.start source) n
  exact ⟨ahead, hahead.trans source.failures_sights⟩

/-- Answers to pieces report what was seen of failures. -/
theorem reported_of_takes {pieces : List (List Sight)} {answered : List FrameResult}
    (h : List.Forall₂ f.Takes pieces answered) :
    pieces.flatten.filterMap Sight.failure = reported answered := by
  induction h with
  | nil => rfl
  | @cons piece answer pieces answered hpiece _ ih =>
    rw [List.flatten_cons, List.filterMap_append, hpiece.failures, ih, reported, reported,
      List.filterMap_cons]
    cases cause answer <;> rfl

/-- After enough reads every failure is reported. Induction on the length of the script: behind a
failure there is less of it. -/
theorem eventually_reported (h : Follows f start Stands) (source : Source) :
    ∃ enough, ∀ n, enough ≤ n → reported (answers n (start source)) = source.failures := by
  induction hlen : source.length using Nat.strongRecOn generalizing source with
  | ind len ih =>
    by_cases hnone : source.failures = []
    · -- ?_⟩ => nothing is to be reported, and nothing else is
      refine ⟨0, fun n _ => ?_⟩
      have hprefix := h.reported_prefix source n
      rw [hnone] at hprefix ⊢
      exact List.prefix_nil.mp hprefix
    · obtain ⟨before, e, behind, he, rfl⟩ := Source.exists_fail hnone
      -- up to the first failure, and then by induction from a fresh start behind it
      have hsights := Source.sights_append_fail before behind he
      obtain ⟨pieces, answered, last, step, hfront, hpieces, hlast, hanswers⟩ :=
        h.answers_failure (h.start _) hsights
      have hlast := hlast.failures
      rw [List.filterMap_append] at hlast
      have hlast : last.filterMap Sight.failure = [] := (List.append_inj' hlast rfl).1
      obtain ⟨enough, henough⟩ := ih behind.length (by
        rw [← hlen, List.length_append, List.length_cons]
        omega) behind rfl
      refine ⟨answered.length + 1 + enough, fun n hn => ?_⟩
      obtain ⟨more, rfl⟩ := Nat.exists_eq_add_of_le hn
      rw [Nat.add_assoc _ enough, hanswers, reported, List.filterMap_append, ← reported,
        ← reported_of_takes hpieces, ← Source.failures_sights, hsights, hfront,
        List.filterMap_append, List.filterMap_append, hlast, List.append_nil, List.filterMap_cons,
        List.filterMap_cons, Source.failures_sights behind]
      show _ ++ e :: reported _ = _ ++ e :: _
      rw [henough _ (Nat.le_add_right enough more)]

theorem recovers (h : Follows f start Stands) : Recovers f start where
  restarts before _ behind he :=
    h.answers_failure (h.start _) (Source.sights_append_fail before behind he)
  reports source := ⟨h.reported_prefix source, h.eventually_reported source⟩

end Follows

end

end Cursor

end MessageFraming
