import MessageFraming.Closing.Callers
import MessageFraming.Sink.Scripted
import Mathlib.Logic.Relation

/-!
# One outcome for all callers

Callers race for the cell of a once-only closer, and a run of the closer below may crash and leave
its lock poisoned. Still the closer below is run by one caller at a time, and never again after a
run that returned, and what that run returned is what everyone is told.

* `Callers.Attended`: who fills the cell and who holds the lock is told from where the callers
  stand. So there is one of each at most.
* `Callers.Recorded`: the cell against the record. It keeps what the last run returned, all runs
  before have crashed, and nobody fills a cell that keeps something.
* `Callers.Step.attended` and `Callers.Step.recorded`: every step keeps both, and so does every
  interleaving (`Callers.Reachable.attended`, `Callers.Reachable.recorded`).
* `Callers.steps_of_waiting`: where the cell is empty and nobody fills it, whoever waits can run the
  closer below, whatever became of its lock. So nobody has to wait for ever (`Callers.can_leave`).
* `Callers.OneOutcome`: what follows for the callers, whatever each of them ran into
  (`Callers.one_outcome_for_all`).
-/

namespace MessageFraming

namespace Callers

variable {κ : Type} {closer : κ} {count : Nat} {s s' : Callers κ}

/-- A poisoned lock hides nothing. -/
@[simp] theorem below_eq (s : Callers κ) : s.below = s.closer.closer := by
  unfold below lock
  cases s.poisoned <;> rfl

/-- One caller has moved, and the others stand where they did. -/
theorem getElem?_set {i : Nat} {caller : Caller} (hi : s.callers[i]? = some caller)
    (caller' : Caller) (j : Nat) :
    (s.set i caller').callers[j]? = if j = i then some caller' else s.callers[j]? := by
  obtain ⟨hlt, -⟩ := List.getElem?_eq_some_iff.mp hi
  split
  · next hj =>
    subst hj
    exact List.getElem?_set_self hlt
  · next hj => exact List.getElem?_set_ne (Ne.symm hj)

/-! ## Who fills the cell, and who holds the lock -/

/-- The one on the way to the closer below is the one who fills the cell, and the one who runs it is
the one who holds its lock. -/
structure Attended (s : Callers κ) : Prop where
  filler_iff : ∀ i, s.filler = some i ↔
    s.callers[i]? = some .locking ∨ s.callers[i]? = some .running
  holder_iff : ∀ i, s.holder = some i ↔ s.callers[i]? = some .running

namespace Attended

variable {i : Nat}

/-- Nobody is at the cell at the start. -/
theorem start : Attended (start closer count) := by
  have houtside : ∀ (i : Nat) (caller : Caller),
      (Callers.start closer count).callers[i]? = some caller → caller = .outside :=
    fun i caller hi => (List.mem_replicate.mp (List.mem_of_getElem? hi)).2
  refine ⟨fun i => ⟨nofun, ?_⟩, fun i => ⟨nofun, ?_⟩⟩
  · rintro (hi | hi)
    · cases houtside i _ hi
    · cases houtside i _ hi
  · intro hi
    cases houtside i _ hi

/-- Whoever runs the closer below fills the cell. -/
theorem filler_of_running (h : Attended s) (hi : s.callers[i]? = some .running) :
    s.filler = some i :=
  (h.filler_iff i).mpr (Or.inr hi)

/-- The lock is free while nobody fills the cell. -/
theorem holder_of_filler (h : Attended s) (hfree : s.filler = none) : s.holder = none := by
  cases hholder : s.holder with
  | none => rfl
  | some j =>
    have hfiller := h.filler_of_running ((h.holder_iff j).mp hholder)
    rw [hfree] at hfiller
    cases hfiller

/-- One caller moves on. It has to be told right who fills the cell and holds the lock if it is this
one, and nothing may change for the others. -/
theorem move (h : Attended s) {caller caller' : Caller} (hi : s.callers[i]? = some caller)
    (hcallers : s'.callers = (s.set i caller').callers)
    (hfiller : s'.filler = some i ↔ caller' = .locking ∨ caller' = .running)
    (hholder : s'.holder = some i ↔ caller' = .running)
    (hfillers : ∀ j, j ≠ i → (s'.filler = some j ↔ s.filler = some j))
    (hholders : ∀ j, j ≠ i → (s'.holder = some j ↔ s.holder = some j)) : Attended s' := by
  refine ⟨fun j => ?_, fun j => ?_⟩
  · rw [hcallers, getElem?_set hi]
    -- for the one that moved it is given, and for the others nothing has changed
    by_cases hj : j = i
    · subst hj
      rw [if_pos rfl, Option.some_inj, Option.some_inj]
      exact hfiller
    · rw [if_neg hj, hfillers j hj]
      exact h.filler_iff j
  · rw [hcallers, getElem?_set hi]
    by_cases hj : j = i
    · subst hj
      rw [if_pos rfl, Option.some_inj]
      exact hholder
    · rw [if_neg hj, hholders j hj]
      exact h.holder_iff j

/-- Callers come and go without touching the cell or the lock. -/
theorem set (h : Attended s) {caller caller' : Caller} (hi : s.callers[i]? = some caller)
    (hcaller : caller ≠ .locking ∧ caller ≠ .running)
    (hcaller' : caller' ≠ .locking ∧ caller' ≠ .running) : Attended (s.set i caller') := by
  refine h.move hi rfl ?_ ?_ (fun j _ => Iff.rfl) (fun j _ => Iff.rfl)
  · show s.filler = some i ↔ _
    rw [h.filler_iff, hi, Option.some_inj, Option.some_inj]
    simp [hcaller, hcaller']
  · show s.holder = some i ↔ _
    rw [h.holder_iff, hi, Option.some_inj]
    simp [hcaller, hcaller']

end Attended

/-- Every step tells who fills the cell and who holds the lock, one case for each. -/
theorem Step.attended [Closable κ] (h : Step s s') (hs : Attended s) : Attended s' := by
  have hother : ∀ {i j : Nat}, j ≠ i → some i ≠ some j :=
    fun hj heq => hj (Option.some.inj heq).symm
  cases h with
  | call hi => exact hs.set hi (by decide) (by decide)
  | @join i hi hfilled =>
    have houtside : Attended (s.set i .outside) := hs.set hi (by decide) (by decide)
    exact ⟨houtside.filler_iff, houtside.holder_iff⟩
  -- nobody filled the cell, so nobody held the lock
  | @fill i hi hempty hidle =>
    have hfree := hs.holder_of_filler hidle
    refine hs.move hi rfl (by simp) ?_ (fun j hj => ?_) (fun j _ => Iff.rfl)
    · show s.holder = some i ↔ _
      simp [hfree]
    · rw [hidle]
      exact iff_of_false (hother hj) nofun
  -- whoever is about to lock fills the cell already
  | @lock i hi hfree =>
    have hfiller := (hs.filler_iff i).mpr (Or.inl hi)
    refine hs.move hi rfl ?_ (by simp) (fun j _ => Iff.rfl) (fun j hj => ?_)
    · show s.filler = some i ↔ _
      simp [hfiller]
    · rw [hfree]
      exact iff_of_false (hother hj) nofun
  -- whoever ran gives up both
  | @finish i run hi hrun =>
    have hfiller := hs.filler_of_running hi
    have hholder := (hs.holder_iff i).mpr hi
    refine hs.move hi rfl ?_ ?_ (fun j hj => ?_) (fun j hj => ?_)
    · exact iff_of_false nofun (by decide)
    · exact iff_of_false nofun (by decide)
    · rw [hfiller]
      exact iff_of_false nofun (hother hj)
    · rw [hholder]
      exact iff_of_false nofun (hother hj)

/-! ## What the cell keeps -/

/-- An answer is what the cell keeps, or the crash of a run of one's own. -/
def Founded (s : Callers κ) (answer : Nat × Outcome IoError Unit) : Prop :=
  (∃ kept, s.closer.outcome = some kept ∧ answer.2 = .ofExcept kept)
    ∨ answer.2.returned = none ∧ answer ∈ s.runs

/-- The cell against the record of runs, and the record of answers against both. -/
structure Recorded (s : Callers κ) : Prop where
  empty_of_filler : ∀ i, s.filler = some i → s.closer.outcome = none
  outcome_eq : s.closer.outcome = s.runs.head?.bind (·.2.returned)
  crashed_before : ∀ run ∈ s.runs.tail, run.2.returned = none
  poisoned_iff : s.poisoned = true ↔ ∃ run ∈ s.runs, run.2.returned = none
  founded : ∀ answer ∈ s.answers, Founded s answer

namespace Recorded

/-- While the cell is empty, all runs have crashed. -/
theorem all_crashed (h : Recorded s) (hempty : s.closer.outcome = none) :
    ∀ run ∈ s.runs, run.2.returned = none := by
  have hhead := h.outcome_eq
  have htail := h.crashed_before
  cases hruns : s.runs with
  | nil => exact fun _ hrun => (List.not_mem_nil hrun).elim
  | cons last earlier =>
    rw [hruns] at hhead htail
    exact List.forall_mem_cons.mpr ⟨hhead.symm.trans hempty, htail⟩

/-- Of the runs on record, one at most has returned: the last one. -/
theorem returned_once (h : Recorded s) :
    (s.runs.filter (·.2.returned.isSome)).length ≤ 1 := by
  have hearlier : (s.runs.tail.filter (·.2.returned.isSome)) = [] :=
    List.filter_eq_nil_iff.mpr fun run hrun => by simp [h.crashed_before run hrun]
  cases hruns : s.runs with
  | nil => exact Nat.zero_le 1
  | cons last earlier =>
    rw [hruns, List.tail_cons] at hearlier
    rw [List.filter_cons, hearlier]
    split
    · exact Nat.le_refl 1
    · exact Nat.zero_le 1

/-- The closer is closed just where some run has returned. -/
theorem isClosed_iff (h : Recorded s) :
    s.closer.isClosed = true ↔ ∃ run ∈ s.runs, run.2.returned.isSome := by
  constructor
  · intro hclosed
    rw [OnceCloser.isClosed, h.outcome_eq] at hclosed
    cases hruns : s.runs with
    | nil => simp [hruns] at hclosed
    | cons last earlier => exact ⟨last, List.mem_cons_self, by simpa [hruns] using hclosed⟩
  · rintro ⟨run, hrun, hreturned⟩
    cases houtcome : s.closer.outcome with
    | some kept => simp [OnceCloser.isClosed, houtcome]
    | none => simp [h.all_crashed houtcome run hrun] at hreturned

/-- It keeps what some run has returned, and only that. -/
theorem outcome_eq_some_iff (h : Recorded s) (kept : Except IoError Unit) :
    s.closer.outcome = some kept ↔ ∃ i, (i, .ofExcept kept) ∈ s.runs := by
  have houtcome := h.outcome_eq
  have hearlier := h.crashed_before
  cases hruns : s.runs with
  | nil => simp [houtcome, hruns]
  | cons last earlier =>
    rw [hruns] at houtcome hearlier
    change s.closer.outcome = last.2.returned at houtcome
    rw [houtcome]
    constructor
    · intro hlast
      exact ⟨last.1, Outcome.returned_eq_some hlast ▸ List.mem_cons_self⟩
    · rintro ⟨i, hrun⟩
      rcases List.mem_cons.mp hrun with rfl | hrun
      · exact Outcome.returned_ofExcept kept
      · -- no earlier run returned
        have hcrashed := hearlier _ hrun
        rw [Outcome.returned_ofExcept] at hcrashed
        cases hcrashed

/-- A run of a caller that fills the cell. -/
theorem finish (h : Recorded s) {i : Nat} (hfiller : s.filler = some i)
    (run : Reply κ IoError Unit) : Recorded (s.finish i run) where
  empty_of_filler := nofun
  outcome_eq := rfl
  crashed_before := h.all_crashed (h.empty_of_filler i hfiller)
  poisoned_iff := by
    show (s.poisoned || run.outcome.returned.isNone) = true ↔ ∃ r ∈ (i, run.outcome) :: s.runs, _
    simp only [Bool.or_eq_true, h.poisoned_iff, Option.isNone_iff_eq_none, List.mem_cons,
      exists_eq_or_imp]
    exact Or.comm
  founded := by
    refine List.forall_mem_cons.mpr ⟨?_, fun answer hanswer => ?_⟩
    · -- the one who ran is told what he ran into; a crash is his alone
      cases hreturned : run.outcome.returned with
      | some kept => exact Or.inl ⟨kept, hreturned, Outcome.returned_eq_some hreturned⟩
      | none => exact Or.inr ⟨hreturned, List.mem_cons_self⟩
    · -- nothing was kept so far, so all others had crashed
      rcases h.founded answer hanswer with ⟨kept, hkept, -⟩ | ⟨hcrashed, hrun⟩
      · cases (h.empty_of_filler i hfiller).symm.trans hkept
      · exact Or.inr ⟨hcrashed, List.mem_cons_of_mem _ hrun⟩

end Recorded

/-- Nobody is on the way to the closer below once the cell is filled. -/
theorem not_filling_of_filled (hattended : Attended s) (hrecorded : Recorded s)
    (hfilled : s.closer.isClosed = true) (i : Nat) :
    s.callers[i]? ≠ some .locking ∧ s.callers[i]? ≠ some .running := by
  rw [← not_or, ← hattended.filler_iff i]
  intro hfiller
  have hempty := hrecorded.empty_of_filler i hfiller
  rw [OnceCloser.isClosed_eq_false_iff.mpr hempty] at hfilled
  cases hfilled

/-- Every step keeps the record. Only the end of a run adds to it, and at most that fills
the cell. -/
theorem Step.recorded [Closable κ] (h : Step s s') (hattended : Attended s) (hs : Recorded s) :
    Recorded s' := by
  obtain ⟨hempty, houtcome, hcrashed, hpoisoned, hfounded⟩ := hs
  cases h with
  | call | lock => exact ⟨hempty, houtcome, hcrashed, hpoisoned, hfounded⟩
  | join hi hfilled =>
    -- the close of a filled cell leaves it as it is
    obtain ⟨kept, hkept⟩ := Option.isSome_iff_exists.mp hfilled
    rw [OnceCloser.close_of_filled hkept]
    exact ⟨hempty, houtcome, hcrashed, hpoisoned,
      List.forall_mem_cons.mpr ⟨Or.inl ⟨kept, hkept, rfl⟩, hfounded⟩⟩
  | fill hi hopen hidle =>
    have hnone := OnceCloser.isClosed_eq_false_iff.mp hopen
    exact ⟨fun _ _ => hnone, houtcome, hcrashed, hpoisoned, hfounded⟩
  | finish hi hrun =>
    exact Recorded.finish ⟨hempty, houtcome, hcrashed, hpoisoned, hfounded⟩
      (hattended.filler_of_running hi) _

section

variable [Closable κ]

theorem Reachable.attended (h : Reachable closer count s) : Attended s := by
  induction h with
  | start => exact .start
  | step _ hstep ih => exact hstep.attended ih

theorem Reachable.recorded (h : Reachable closer count s) : Recorded s := by
  induction h with
  | start => exact ⟨nofun, rfl, nofun, ⟨nofun, nofun⟩, nofun⟩
  | step hbefore hstep ih => exact hstep.recorded hbefore.attended ih

theorem Reachable.trans (h : Reachable closer count s) (hsteps : Relation.ReflTransGen Step s s') :
    Reachable closer count s' := by
  induction hsteps with
  | refl => exact h
  | tail _ hstep ih => exact ih.step hstep

/-- A filled cell keeps what it has, and the closer below is not run any more. -/
theorem Step.of_filled (h : Step s s') (hattended : Attended s) (hrecorded : Recorded s)
    (hfilled : s.closer.isClosed = true) : s'.closer = s.closer ∧ s'.runs = s.runs := by
  cases h with
  | call | fill | lock => exact ⟨rfl, rfl⟩
  | join =>
    obtain ⟨kept, hkept⟩ := Option.isSome_iff_exists.mp hfilled
    rw [OnceCloser.close_of_filled hkept]
    exact ⟨rfl, rfl⟩
  | finish hi hrun =>
    have hempty := hrecorded.empty_of_filler _ (hattended.filler_of_running hi)
    rw [OnceCloser.isClosed_eq_false_iff.mpr hempty] at hfilled
    cases hfilled

/-- So it is along any interleaving. -/
theorem Reachable.of_filled (h : Reachable closer count s) (hfilled : s.closer.isClosed = true)
    (hsteps : Relation.ReflTransGen Step s s') : s'.closer = s.closer ∧ s'.runs = s.runs := by
  induction hsteps with
  | refl => exact ⟨rfl, rfl⟩
  | tail hbefore hstep ih =>
    obtain ⟨hcloser, hruns⟩ := ih
    have hreachable := h.trans hbefore
    obtain ⟨hcloser', hruns'⟩ :=
      hstep.of_filled hreachable.attended hreachable.recorded (hcloser ▸ hfilled)
    exact ⟨hcloser'.trans hcloser, hruns'.trans hruns⟩

/-! ## Nobody waits for ever -/

/-- Caller `i` before the cell goes all the way to the closer below and runs it. -/
theorem steps_of_waiting (hattended : Attended s) {i : Nat} (hi : s.callers[i]? = some .waiting)
    (hopen : s.closer.isClosed = false) (hidle : s.filler = none) :
    ∃ s₁ s₂ s₃, Step s s₁ ∧ Step s₁ s₂ ∧ s₂.callers[i]? = some .running ∧ Step s₂ s₃
      ∧ s₃.runs = (i, (Closable.close s.closer.closer).outcome) :: s.runs
      ∧ s₃.closer = s.closer.close.state
      ∧ s₃.answers = (i, s.closer.close.outcome) :: s.answers
      ∧ s₃.callers[i]? = some .outside := by
  have hlocking : (s.set i .locking).callers[i]? = some .locking := by
    rw [getElem?_set hi, if_pos rfl]
  have hrunning : ((s.set i .locking).set i .running).callers[i]? = some .running := by
    rw [getElem?_set hlocking, if_pos rfl]
  -- he fills the cell, takes the lock, and runs the closer
  refine ⟨_, _, _, .fill hi hopen hidle, .lock hlocking (hattended.holder_of_filler hidle),
    hrunning, .finish hrunning rfl, ?_⟩
  rw [below_eq, OnceCloser.close_of_empty (OnceCloser.isClosed_eq_false_iff.mp hopen)]
  refine ⟨rfl, rfl, rfl, ?_⟩
  show (((s.set i .locking).set i .running).set i .outside).callers[i]? = some .outside
  rw [getElem?_set hrunning, if_pos rfl]

/-- Whoever is at the cell can come to an end, and the others stay where they are. -/
theorem steps_of_filler (hattended : Attended s) {j : Nat} (hj : s.filler = some j) :
    ∃ s', Relation.ReflTransGen Step s s' ∧ s'.filler = none
      ∧ ∀ i, i ≠ j → s'.callers[i]? = s.callers[i]? := by
  rcases (hattended.filler_iff j).mp hj with hlocking | hrunning
  · -- he does not hold the lock yet, and nobody else can
    have hfree : s.holder = none := by
      cases hholder : s.holder with
      | none => rfl
      | some k =>
        have hk := (hattended.holder_iff k).mp hholder
        cases hj.symm.trans (hattended.filler_of_running hk)
        cases hlocking.symm.trans hk
    have hrunning : (s.set j .running).callers[j]? = some .running := by
      rw [getElem?_set hlocking, if_pos rfl]
    refine ⟨_, .tail (.single (.lock hlocking hfree)) (.finish hrunning rfl), rfl, fun i hi => ?_⟩
    show ((s.set j .running).set j .outside).callers[i]? = _
    rw [getElem?_set hrunning, if_neg hi, getElem?_set hlocking, if_neg hi]
  · -- he runs the closer already
    refine ⟨_, .single (.finish hrunning rfl), rfl, fun i hi => ?_⟩
    show (s.set j .outside).callers[i]? = _
    rw [getElem?_set hrunning, if_neg hi]

/-- Whoever waits while nobody fills the cell can fill it himself, or find it filled. -/
theorem can_leave_of_idle (hattended : Attended s) {i : Nat} (hi : s.callers[i]? = some .waiting)
    (hidle : s.filler = none) :
    ∃ s', Relation.ReflTransGen Step s s' ∧ s'.callers[i]? = some .outside := by
  cases hclosed : s.closer.isClosed with
  | true =>
    refine ⟨_, .single (.join hi hclosed), ?_⟩
    show (s.set i .outside).callers[i]? = _
    rw [getElem?_set hi, if_pos rfl]
  | false =>
    obtain ⟨s₁, s₂, s₃, h₁, h₂, -, h₃, -, -, -, houtside⟩ :=
      steps_of_waiting hattended hi hclosed hidle
    exact ⟨s₃, .tail (.tail (.single h₁) h₂) h₃, houtside⟩

/-- Whoever waits can still be answered. -/
theorem can_leave (h : Reachable closer count s) {i : Nat} (hi : s.callers[i]? = some .waiting) :
    ∃ s', Relation.ReflTransGen Step s s' ∧ s'.callers[i]? = some .outside := by
  cases hfiller : s.filler with
  | none => exact can_leave_of_idle h.attended hi hfiller
  | some j =>
    obtain ⟨s', hsteps, hidle, hothers⟩ := steps_of_filler h.attended hfiller
    -- whoever waits is not the one who fills the cell, who may end first
    have hij : i ≠ j := by
      rintro rfl
      rcases (h.attended.filler_iff i).mp hfiller with hi' | hi'
      · cases hi.symm.trans hi'
      · cases hi.symm.trans hi'
    have hi' := (hothers i hij).trans hi
    obtain ⟨s'', hsteps', houtside⟩ := can_leave_of_idle (h.trans hsteps).attended hi' hidle
    exact ⟨s'', hsteps.trans hsteps', houtside⟩

/-! ## What the callers are told -/

/-- What callers of a once-only closer can rely on. -/
structure OneOutcome (s : Callers κ) : Prop where
  /-- No two runs overlap. -/
  runs_alone (i j : Nat) :
    s.callers[i]? = some .running → s.callers[j]? = some .running → i = j
  /-- At most one run returns, and the closer is closed just where one has. -/
  returned_once : (s.runs.filter (·.2.returned.isSome)).length ≤ 1
  isClosed_iff : s.closer.isClosed = true ↔ ∃ run ∈ s.runs, run.2.returned.isSome
  /-- It keeps what that run returned. -/
  kept_iff (kept : Except IoError Unit) :
    s.closer.outcome = some kept ↔ ∃ i, (i, .ofExcept kept) ∈ s.runs
  /-- It does so for good, and runs nothing any more. -/
  stays_closed : s.closer.isClosed = true →
    (∀ i : Nat, s.callers[i]? ≠ some .locking ∧ s.callers[i]? ≠ some .running)
      ∧ ∀ s', Relation.ReflTransGen Step s s' → s'.closer = s.closer ∧ s'.runs = s.runs
  /-- Closing it again, by itself or like any other closer, tells what is kept and does nothing. -/
  close_again (kept : Except IoError Unit) : s.closer.outcome = some kept →
    s.closer.close = ⟨.ofExcept kept, s.closer, []⟩
      ∧ Closable.close s.closer = ⟨.ofExcept kept, s.closer, []⟩
  /-- Everyone who was answered was told what is kept, or had run the closer below himself and
  crashed with it. -/
  answered (i : Nat) (outcome : Outcome IoError Unit) : (i, outcome) ∈ s.answers →
    (∃ kept, s.closer.outcome = some kept ∧ outcome = .ofExcept kept)
      ∨ ∃ message, outcome = .crash message ∧ (i, outcome) ∈ s.runs
  /-- Behind a crash the closer is not closed, and its lock is poisoned. -/
  open_behind_crash (i : Nat) (message : String) (earlier : List (Nat × Outcome IoError Unit)) :
    s.runs = (i, .crash message) :: earlier → s.closer.isClosed = false
  poisoned_iff : s.poisoned = true ↔ ∃ i message, (i, .crash message) ∈ s.runs
  /-- Still whoever waits then runs the closer below again, as the close of a lone caller does, by
  itself or like any other closer. -/
  runs_again (i : Nat) :
    s.callers[i]? = some .waiting → s.closer.isClosed = false → s.filler = none →
      ∃ s₁ s₂ s₃, Step s s₁ ∧ Step s₁ s₂ ∧ s₂.callers[i]? = some .running ∧ Step s₂ s₃
        ∧ s₃.runs = (i, (Closable.close s.closer.closer).outcome) :: s.runs
        ∧ s₃.closer = s.closer.close.state
        ∧ s₃.answers = (i, s.closer.close.outcome) :: s.answers
        ∧ Closable.close s.closer = s.closer.close
  /-- Nobody has to wait for ever. -/
  can_leave (i : Nat) : s.callers[i]? = some .waiting →
    ∃ s', Relation.ReflTransGen Step s s' ∧ s'.callers[i]? = some .outside

/-- **One run returns, and what it returns is everyone's answer**, however many callers there are,
however they interleave, and whatever the runs of the closer below come to. -/
theorem one_outcome_for_all (h : Reachable closer count s) : OneOutcome s where
  runs_alone i j hi hj :=
    Option.some.inj
      ((h.attended.filler_of_running hi).symm.trans (h.attended.filler_of_running hj))
  returned_once := h.recorded.returned_once
  isClosed_iff := h.recorded.isClosed_iff
  kept_iff := h.recorded.outcome_eq_some_iff
  stays_closed hfilled :=
    ⟨not_filling_of_filled h.attended h.recorded hfilled,
      fun _ hsteps => h.of_filled hfilled hsteps⟩
  close_again _ hkept := ⟨OnceCloser.close_of_filled hkept, OnceCloser.close_of_filled hkept⟩
  answered i outcome hanswer := by
    rcases h.recorded.founded _ hanswer with hkept | ⟨hcrashed, hrun⟩
    · exact Or.inl hkept
    · obtain ⟨message, hmessage⟩ := Outcome.returned_eq_none hcrashed
      exact Or.inr ⟨message, hmessage, hrun⟩
  open_behind_crash i message earlier hruns := by
    have hkept := h.recorded.outcome_eq
    rw [hruns] at hkept
    exact OnceCloser.isClosed_eq_false_iff.mpr hkept
  poisoned_iff := by
    rw [h.recorded.poisoned_iff]
    constructor
    · rintro ⟨⟨i, outcome⟩, hrun, hcrashed⟩
      obtain ⟨message, rfl⟩ := Outcome.returned_eq_none hcrashed
      exact ⟨i, message, hrun⟩
    · rintro ⟨i, message, hrun⟩
      exact ⟨_, hrun, rfl⟩
  runs_again i hi hopen hidle := by
    obtain ⟨s₁, s₂, s₃, h₁, h₂, hrunning, h₃, hruns, hcloser, hanswers, -⟩ :=
      steps_of_waiting h.attended hi hopen hidle
    exact ⟨s₁, s₂, s₃, h₁, h₂, hrunning, h₃, hruns, hcloser, hanswers, rfl⟩
  can_leave _ hi := can_leave h hi

end

/-- A closer that crashes first and fails then. -/
def crashingDisk : Callback := ⟨"disk", [.crash "boom", .fail (.plain .timedOut "slow")]⟩

/-- The first of three callers runs into the crash, the second runs the closer again, and the third
is told of its failure. -/
theorem one_outcome_for_all_crashingDisk :
    ∃ s, Reachable crashingDisk 3 s
      ∧ s.answers = [(2, .error (.plain .timedOut "slow")), (1, .error (.plain .timedOut "slow")),
          (0, .crash "boom")]
      ∧ s.poisoned = true
      ∧ s.closer.isClosed = true
      ∧ (s.runs.filter (·.2.returned.isSome)).length ≤ 1 := by
  have hstart : Reachable crashingDisk 3 _ := .start
  have hcalls := ((hstart.step (.call (i := 0) rfl)).step (.call (i := 1) rfl)).step
    (.call (i := 2) rfl)
  -- each run takes three steps: filling, locking, and its end
  have hcrash := ((hcalls.step (.fill (i := 0) rfl rfl rfl)).step (.lock (i := 0) rfl rfl)).step
    (.finish (i := 0) rfl rfl)
  have hfailure := ((hcrash.step (.fill (i := 1) rfl rfl rfl)).step (.lock (i := 1) rfl rfl)).step
    (.finish (i := 1) rfl rfl)
  have hall := hfailure.step (.join (i := 2) rfl rfl)
  have hone := one_outcome_for_all hall
  exact ⟨_, hall, rfl, hone.poisoned_iff.mpr ⟨0, "boom", by decide⟩,
    hone.isClosed_iff.mpr (by decide), hone.returned_once⟩

end Callers

end MessageFraming
