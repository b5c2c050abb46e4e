import MessageFraming.Closing.Chain
import MessageFraming.Sink.Scripted

/-!
# Close chains resume where they broke off

A chain may be closed again and again, and each time some step may fail or crash. Meanwhile its
owner writes, flushes, and does to the writer what it likes. However this goes, the steps come to
success one after another, each of them once: a close begins with the least step that has not
succeeded yet, and goes on from step to step until one does not succeed.

* `CloseChain.record`: a close that keeps a record of the steps it runs. But for the record it is
  `closeAll` (`record_reply`), and the calls that reach devices are those of the recorded runs
  (`record_calls`).
* `CloseChain.closeAll_cases`: what a close can come to. No other proof looks into it.
* `CloseChain.Life`: what can be done to a chain, with everything that was invoked meanwhile.
  `CloseChain.Accounts` is kept by all of it (`Life.accounts`).
* `CloseChain.Resumes`: what follows for the owner of a chain, whatever was done to it
  (`CloseChain.steps_succeed_in_order`).

A step on the writer is a function of the writer alone. One that remembers something of its own is a
step over a writer that has this memory beside it.
-/

namespace MessageFraming

/-- One run of a step: its place among all steps of the chain, and how it went. -/
structure Invocation where
  position : Nat
  outcome : Outcome IoError Unit
  calls : List Call
deriving Repr, DecidableEq

def Invocation.succeeded (i : Invocation) : Bool := i.outcome == .ok ()

@[simp] theorem Invocation.succeeded_ok (position : Nat) (calls : List Call) :
    (⟨position, .ok (), calls⟩ : Invocation).succeeded = true := rfl
@[simp] theorem Invocation.succeeded_error (position : Nat) (e : IoError) (calls : List Call) :
    (⟨position, .error e, calls⟩ : Invocation).succeeded = false := rfl
@[simp] theorem Invocation.succeeded_crash (position : Nat) (message : String) (calls : List Call) :
    (⟨position, .crash message, calls⟩ : Invocation).succeeded = false := rfl

namespace CloseChain

/-- The places of the steps that have come to success, in the order in which they did. -/
def successes (history : List Invocation) : List Nat :=
  (history.filter Invocation.succeeded).map (·.position)

@[simp] theorem successes_append (a b : List Invocation) :
    successes (a ++ b) = successes a ++ successes b := by
  unfold successes
  rw [List.filter_append, List.map_append]

/-- The steps from the one at `first` to the one at `last` were run, in order. All of them succeeded
but for the last, which came to `outcome`. -/
def RanUpTo (first last : Nat) (outcome : Outcome IoError Unit) (ran : List Invocation) : Prop :=
  first ≤ last ∧ ∃ front calls, ran = front ++ [⟨last, outcome, calls⟩]
    ∧ front.map (·.position) = List.range' first (last - first) ∧ ∀ i ∈ front, i.succeeded

/-- The first step is also the last one. -/
theorem RanUpTo.single (position : Nat) (outcome : Outcome IoError Unit) (calls : List Call) :
    RanUpTo position position outcome [⟨position, outcome, calls⟩] :=
  ⟨Nat.le_refl position, [], calls, rfl, by rw [Nat.sub_self]; rfl, by simp⟩

/-- One more step in front, which succeeded. -/
theorem RanUpTo.cons {first last : Nat} {outcome : Outcome IoError Unit} {ran : List Invocation}
    (h : RanUpTo (first + 1) last outcome ran) (calls : List Call) :
    RanUpTo first last outcome (⟨first, .ok (), calls⟩ :: ran) := by
  obtain ⟨hle, front, lastCalls, rfl, hpositions, hsucceeded⟩ := h
  refine ⟨Nat.le_of_succ_le hle, ⟨first, .ok (), calls⟩ :: front, lastCalls, rfl, ?_,
    List.forall_mem_cons.mpr ⟨rfl, hsucceeded⟩⟩
  have hcount : last - first = last - (first + 1) + 1 := by omega
  rw [List.map_cons, hpositions, hcount, List.range'_succ]

variable {ω κ : Type}

/-! ## One close -/

/-- A close has run the steps in `pending`, and all of them succeeded. -/
structure Completed (closed pending : List (CloseStep ω κ)) (ran : List Invocation)
    (reply : Reply (CloseChain ω κ) CloseChainError Unit) : Prop where
  positions : ran.map (·.position) = List.range' closed.length pending.length
  succeeded : ∀ i ∈ ran, i.succeeded
  outcome : reply.outcome = .ok ()
  closed_length : reply.state.closed.length = closed.length + pending.length
  pending_eq : reply.state.pending = []

/-- A close has run steps in order, up to the one at `position`. That one came to `outcome`, which
is no success, and is the first pending one now. -/
structure BrokenOff (closed pending : List (CloseStep ω κ)) (position : Nat)
    (outcome : Outcome IoError Unit) (ran : List Invocation)
    (reply : Reply (CloseChain ω κ) CloseChainError Unit) : Prop where
  ranUpTo : RanUpTo closed.length position outcome ran
  failed : outcome ≠ .ok ()
  outcome_eq : reply.outcome = outcome.mapError fun e => ⟨position, e⟩
  closed_length : reply.state.closed.length = position
  pending_length : position + reply.state.pending.length = closed.length + pending.length
  pending_ne : reply.state.pending ≠ []

section

variable {closed pending : List (CloseStep ω κ)} {step step' : CloseStep ω κ}
  {ran : List Invocation} {reply : Reply (CloseChain ω κ) CloseChainError Unit}

/-- One more step in front, which succeeded as all others did. -/
theorem Completed.cons (h : Completed (closed ++ [step']) pending ran reply) (calls : List Call) :
    Completed closed (step :: pending) (⟨closed.length, .ok (), calls⟩ :: ran)
      (reply.after calls) where
  positions := by
    rw [List.map_cons, h.positions, List.length_append, List.length_singleton, List.length_cons,
      List.range'_succ]
  succeeded := List.forall_mem_cons.mpr ⟨rfl, h.succeeded⟩
  outcome := h.outcome
  closed_length := by
    rw [Reply.after_state, h.closed_length, List.length_append, List.length_singleton,
      List.length_cons, Nat.add_assoc, Nat.add_comm 1]
  pending_eq := h.pending_eq

/-- One more step in front, which succeeded, of a close that broke off behind it. -/
theorem BrokenOff.cons {position : Nat} {outcome : Outcome IoError Unit}
    (h : BrokenOff (closed ++ [step']) pending position outcome ran reply) (calls : List Call) :
    BrokenOff closed (step :: pending) position outcome (⟨closed.length, .ok (), calls⟩ :: ran)
      (reply.after calls) where
  ranUpTo := by
    have hlater := h.ranUpTo
    rw [List.length_append, List.length_singleton] at hlater
    exact hlater.cons calls
  failed := h.failed
  outcome_eq := h.outcome_eq
  closed_length := h.closed_length
  pending_length := by
    rw [Reply.after_state, h.pending_length, List.length_append, List.length_singleton,
      List.length_cons, Nat.add_assoc, Nat.add_comm 1]
  pending_ne := h.pending_ne

/-- The step that broke the close off adds no success. -/
theorem BrokenOff.successes_last {position : Nat} {outcome : Outcome IoError Unit}
    (h : BrokenOff closed pending position outcome ran reply) (calls : List Call) :
    successes [(⟨position, outcome, calls⟩ : Invocation)] = [] := by
  have hfailed := h.failed
  rcases outcome with value | e | message
  · exact absurd rfl hfailed
  · rfl
  · rfl

/-- What a broken off close answers tells the step and what it came to. -/
theorem BrokenOff.of_error {position : Nat} {outcome : Outcome IoError Unit} {e : CloseChainError}
    (h : BrokenOff closed pending position outcome ran reply) (he : reply.outcome = .error e) :
    position = e.position ∧ outcome = .error e.cause := by
  have heq := h.outcome_eq.symm.trans he
  rcases outcome with value | cause | message <;> cases heq
  exact ⟨rfl, rfl⟩

/-- A crash of the close is that of the step. -/
theorem BrokenOff.of_crash {position : Nat} {outcome : Outcome IoError Unit} {message : String}
    (h : BrokenOff closed pending position outcome ran reply)
    (hcrash : reply.outcome = .crash message) : outcome = .crash message := by
  have heq := h.outcome_eq.symm.trans hcrash
  rcases outcome with value | cause | message' <;> cases heq
  rfl

/-- A close that broke off did not succeed. -/
theorem BrokenOff.outcome_ne_ok {position : Nat} {outcome : Outcome IoError Unit}
    (h : BrokenOff closed pending position outcome ran reply) : reply.outcome ≠ .ok () := by
  have hfailed := h.failed
  rw [h.outcome_eq]
  rcases outcome with value | cause | message
  · exact absurd rfl hfailed
  · nofun
  · nofun

/-- As many steps were run as were pending. -/
theorem Completed.length_eq (h : Completed closed pending ran reply) :
    ran.length = pending.length := by
  have hlength := congrArg List.length h.positions
  rwa [List.length_map, List.length_range'] at hlength

end

section

variable [Closable κ]

/-- The loop of `record`, with the steps in `pending` behind those in `closed`. -/
def recordFrom (writer : ω) (closed : List (CloseStep ω κ)) :
    List (CloseStep ω κ) → List Invocation × Reply (CloseChain ω κ) CloseChainError Unit
  | [] => ([], .pure () ⟨writer, closed, []⟩)
  | step :: pending =>
    match step.run writer with
    | ⟨.ok (), (writer, step), calls⟩ =>
      let later := recordFrom writer (closed ++ [step]) pending
      (⟨closed.length, .ok (), calls⟩ :: later.1, later.2.after calls)
    | ⟨.error e, (writer, step), calls⟩ =>
      ([⟨closed.length, .error e, calls⟩],
        ⟨.error ⟨closed.length, e⟩, ⟨writer, closed, step :: pending⟩, calls⟩)
    | ⟨.crash message, (writer, step), calls⟩ =>
      ([⟨closed.length, .crash message, calls⟩],
        ⟨.crash message, ⟨writer, closed, step :: pending⟩, calls⟩)

/-- A close that keeps a record of the steps it runs. -/
def record (c : CloseChain ω κ) : List Invocation × Reply (CloseChain ω κ) CloseChainError Unit :=
  recordFrom c.writer c.closed c.pending

/-- The steps that a close runs. -/
def invocations (c : CloseChain ω κ) : List Invocation := c.record.1

/-- The loop with a record answers as the one without. Induction on the pending steps. -/
theorem recordFrom_reply (writer : ω) (closed pending : List (CloseStep ω κ)) :
    (recordFrom writer closed pending).2 = closeFrom writer closed pending := by
  induction pending generalizing writer closed with
  | nil => rfl
  | cons step pending ih =>
    rcases hrun : step.run writer with ⟨value | e | message, ⟨writer', step'⟩, calls⟩
    · simp only [recordFrom, closeFrom, hrun, ih]
    · simp only [recordFrom, closeFrom, hrun]
    · simp only [recordFrom, closeFrom, hrun]

/-- The record changes nothing of the close. -/
theorem record_reply (c : CloseChain ω κ) : c.record.2 = c.closeAll :=
  recordFrom_reply c.writer c.closed c.pending

/-- The calls of a close are those of the steps that it runs. -/
theorem recordFrom_calls (writer : ω) (closed pending : List (CloseStep ω κ)) :
    (recordFrom writer closed pending).2.calls
      = (recordFrom writer closed pending).1.flatMap (·.calls) := by
  induction pending generalizing writer closed with
  | nil => rfl
  | cons step pending ih =>
    rcases hrun : step.run writer with ⟨value | e | message, ⟨writer', step'⟩, calls⟩
    · simp only [recordFrom, hrun, Reply.after_calls, List.flatMap_cons, ih]
    · simp only [recordFrom, hrun, List.flatMap_singleton]
    · simp only [recordFrom, hrun, List.flatMap_singleton]

/-- The calls of a close are those of the steps that it runs. -/
theorem record_calls (c : CloseChain ω κ) :
    c.closeAll.calls = c.invocations.flatMap (·.calls) := by
  rw [← record_reply]
  exact recordFrom_calls c.writer c.closed c.pending

/-- The loop of `closeAll_cases`: a step that succeeds is one more in front of what the close of the
others comes to. -/
theorem recordFrom_cases (writer : ω) (closed pending : List (CloseStep ω κ)) :
    Completed closed pending (recordFrom writer closed pending).1
        (recordFrom writer closed pending).2
      ∨ ∃ position outcome, BrokenOff closed pending position outcome
        (recordFrom writer closed pending).1 (recordFrom writer closed pending).2 := by
  induction pending generalizing writer closed with
  | nil => exact Or.inl ⟨rfl, by simp [recordFrom], rfl, rfl, rfl⟩
  | cons step pending ih =>
    rcases hrun : step.run writer with ⟨value | e | message, ⟨writer', step'⟩, calls⟩
    · simp only [recordFrom, hrun]
      -- this step succeeded, and the others decide
      rcases ih writer' (closed ++ [step']) with h | ⟨position, outcome, h⟩
      · exact Or.inl (h.cons calls)
      · exact Or.inr ⟨position, outcome, h.cons calls⟩
    · simp only [recordFrom, hrun]
      exact Or.inr ⟨closed.length, .error e, .single closed.length (.error e) calls, nofun, rfl,
        rfl, rfl, List.cons_ne_nil _ _⟩
    · simp only [recordFrom, hrun]
      exact Or.inr ⟨closed.length, .crash message,
        .single closed.length (.crash message) calls, nofun, rfl, rfl, rfl, List.cons_ne_nil _ _⟩

/-- **What a close can come to**: all steps succeed, or one of them does not. -/
theorem closeAll_cases (c : CloseChain ω κ) :
    Completed c.closed c.pending c.invocations c.closeAll
      ∨ ∃ position outcome,
        BrokenOff c.closed c.pending position outcome c.invocations c.closeAll := by
  rw [← record_reply]
  exact recordFrom_cases c.writer c.closed c.pending

/-- A close without pending steps does nothing. -/
theorem closeAll_of_pending_eq_nil {c : CloseChain ω κ} (h : c.pending = []) :
    c.closeAll = ⟨.ok (), c, []⟩ ∧ c.invocations = [] := by
  obtain ⟨writer, closed, pending⟩ := c
  cases h
  exact ⟨rfl, rfl⟩

end

/-! ## What was invoked so far -/

/-- Each run was that of the least step that had not succeeded yet. -/
inductive InOrder (total : Nat) : List Invocation → Prop where
  | nil : InOrder total []
  | concat {history : List Invocation} {i : Invocation} : InOrder total history →
      i.position = (successes history).length → i.position < total → InOrder total (history ++ [i])

namespace InOrder

variable {total : Nat} {history : List Invocation}

/-- The run that was last was that of the step whose turn it was. -/
theorem last {i : Invocation} (h : InOrder total (history ++ [i])) :
    InOrder total history ∧ i.position = (successes history).length ∧ i.position < total := by
  generalize heq : history ++ [i] = whole at h
  cases h with
  | nil => simp at heq
  | concat hbefore hposition hlt =>
    obtain ⟨rfl, hi⟩ := List.append_inj' heq rfl
    cases hi
    exact ⟨hbefore, hposition, hlt⟩

/-- What was in order so far was so at any time before. -/
theorem of_prefix {before : List Invocation} (h : InOrder total history)
    (hbefore : before <+: history) : InOrder total before := by
  induction h with
  | nil => rw [List.prefix_nil.mp hbefore]; exact .nil
  | concat hearlier hposition hlt ih =>
    rcases List.prefix_concat_iff.mp hbefore with rfl | hfront
    · exact .concat hearlier hposition hlt
    · exact ih hfront

/-- The steps have succeeded in declaration order, and none of them twice. -/
theorem successes_eq (h : InOrder total history) :
    successes history = List.range (successes history).length := by
  induction h with
  | nil => rfl
  -- a success is that of the next step; a failure adds none
  | @concat history i _ hposition _ ih =>
    rw [successes_append]
    cases hi : i.succeeded with
    | true =>
      have hlast : successes [i] = [(successes history).length] := by
        simp [successes, hi, hposition]
      rw [hlast, List.length_append, List.length_singleton, List.range_succ, ← ih]
    | false =>
      have hlast : successes [i] = [] := by simp [successes, hi]
      rw [hlast, List.append_nil]
      exact ih

/-- Steps that come next and succeed. -/
theorem append_succeeded {front : List Invocation} (h : InOrder total history)
    (hpositions : front.map (·.position) = List.range' (successes history).length front.length)
    (hsucceeded : ∀ i ∈ front, i.succeeded)
    (hle : (successes history).length + front.length ≤ total) :
    InOrder total (history ++ front)
      ∧ (successes (history ++ front)).length = (successes history).length + front.length := by
  induction front generalizing history with
  | nil =>
    rw [List.append_nil]
    exact ⟨h, rfl⟩
  | cons i front ih =>
    obtain ⟨hi, hfront⟩ := List.forall_mem_cons.mp hsucceeded
    rw [List.map_cons, List.length_cons, List.range'_succ] at hpositions
    obtain ⟨hposition, hlater⟩ := List.cons_eq_cons.mp hpositions
    rw [List.length_cons] at hle
    -- the first of them is the next one, and then the others come next
    have hcount : (successes (history ++ [i])).length = (successes history).length + 1 := by
      simp [successes, hi]
    rw [← List.singleton_append, ← List.append_assoc]
    obtain ⟨horder, hlength⟩ :=
      ih (.concat h hposition (by omega)) (by rw [hcount]; exact hlater) hfront (by omega)
    refine ⟨horder, ?_⟩
    rw [hlength, hcount, List.length_append, List.length_singleton]
    omega

end InOrder

/-- What was invoked has brought the chain where it is. -/
structure Accounts (total : Nat) (history : List Invocation) (c : CloseChain ω κ) : Prop where
  inOrder : InOrder total history
  closed_length : c.closed.length = (successes history).length
  steps_length : c.closed.length + c.pending.length = total

section

variable [Closable κ]

/-- **A close keeps the account**, however it ends. -/
theorem Accounts.close {total : Nat} {history : List Invocation} {c : CloseChain ω κ}
    (h : Accounts total history c) :
    Accounts total (history ++ c.invocations) c.closeAll.state := by
  have hclosed := h.closed_length
  have hsteps := h.steps_length
  rcases c.closeAll_cases with hend | ⟨position, outcome, hend⟩
  · -- all pending steps have succeeded
    have hpositions := hend.positions
    have hlength := hend.length_eq
    rw [hclosed, ← hlength] at hpositions
    obtain ⟨horder, hcount⟩ := h.inOrder.append_succeeded hpositions hend.succeeded (by omega)
    refine ⟨horder, ?_, ?_⟩
    · rw [hend.closed_length, hcount, hclosed, hlength]
    · rw [hend.closed_length, hend.pending_eq, List.length_nil, Nat.add_zero]
      exact hsteps
  · -- the steps in front have succeeded, and the one that did not comes next
    obtain ⟨hle, front, calls, hran, hpositions, hsucceeded⟩ := hend.ranUpTo
    have hlength : position - c.closed.length = front.length := by
      have := congrArg List.length hpositions
      rwa [List.length_map, List.length_range', eq_comm] at this
    have hpending := hend.pending_length
    have hpos := List.length_pos_iff.mpr hend.pending_ne
    rw [hlength, hclosed] at hpositions
    obtain ⟨horder, hcount⟩ := h.inOrder.append_succeeded hpositions hsucceeded (by omega)
    have hposition : position = (successes (history ++ front)).length := by omega
    have hlt : position < total := by omega
    rw [hran, ← List.append_assoc]
    refine ⟨.concat horder hposition hlt, ?_, ?_⟩
    · rw [hend.closed_length, successes_append, hend.successes_last calls, List.append_nil]
      exact hposition
    · rw [hend.closed_length, hpending]
      exact hsteps

/-- A close succeeds just where all steps have: it leaves none pending then, and one otherwise. -/
theorem Accounts.closeAll_ok_iff {total : Nat} {history : List Invocation} {c : CloseChain ω κ}
    (h : Accounts total history c) :
    c.closeAll.outcome = .ok ()
      ↔ successes (history ++ c.invocations) = List.range total := by
  have hafter := h.close
  have hrange := hafter.inOrder.successes_eq
  have hlength := hafter.closed_length
  have hsteps := hafter.steps_length
  rcases c.closeAll_cases with hend | ⟨position, outcome, hend⟩
  · rw [hend.pending_eq, List.length_nil, Nat.add_zero, hlength] at hsteps
    rw [hrange, hsteps]
    exact ⟨fun _ => rfl, fun _ => hend.outcome⟩
  · -- a step is left over, so not all have succeeded
    have hpos := List.length_pos_iff.mpr hend.pending_ne
    refine ⟨fun hok => absurd hok hend.outcome_ne_ok, fun hall => ?_⟩
    rw [hall, List.length_range] at hlength
    omega

end

/-! ## The life of a chain -/

/-- What the owner of a chain can do with it. -/
inductive Use (ω : Type) where
  | closeAll
  /-- Closing the chain like any other closer. -/
  | close
  | write (bytes : Bytes)
  | flush
  /-- Whatever the owner does to the writer in place. -/
  | alter (change : ω → ω)

namespace Use

variable [ByteSink ω] [Closable κ]

/-- The chain behind it. -/
def perform (c : CloseChain ω κ) : Use ω → CloseChain ω κ
  | closeAll => c.closeAll.state
  | close => (Closable.close c).state
  | write bytes => (ByteSink.write bytes c).state
  | flush => (ByteSink.flush c).state
  | alter change => { c with writer := change c.writer }

/-- The steps that it runs. -/
def invocations (c : CloseChain ω κ) : Use ω → List Invocation
  | closeAll | close => c.invocations
  | write _ | flush | alter _ => []

end Use

/-- A chain that was `start` has become `c`, and `history` is what was invoked meanwhile. -/
inductive Life [ByteSink ω] [Closable κ] (start : CloseChain ω κ) :
    List Invocation → CloseChain ω κ → Prop where
  | start : Life start [] start
  | use {history : List Invocation} {c : CloseChain ω κ} (use : Use ω) :
      Life start history c → Life start (history ++ use.invocations c) (use.perform c)

section

variable [ByteSink ω] [Closable κ] {writer : ω} {steps : List (CloseStep ω κ)}
  {history : List Invocation} {c : CloseChain ω κ}

/-- Only a close invokes steps, and it keeps the account. -/
theorem Life.accounts (h : Life (ofWriter writer steps) history c) :
    Accounts steps.length history c := by
  induction h with
  | start => exact ⟨.nil, rfl, Nat.zero_add _⟩
  | use use _ ih =>
    cases use with
    | closeAll | close => exact ih.close
    | write | flush | alter =>
      rw [Use.invocations, List.append_nil]
      exact ⟨ih.inOrder, ih.closed_length, ih.steps_length⟩

/-- What the owner of a chain can rely on, who has seen `history` so far. What is said here to be
invoked is the record of a close that is `closeAll` in everything else, and whose calls are those of
the recorded runs. -/
structure Resumes (total : Nat) (history : List Invocation) (c : CloseChain ω κ) : Prop where
  /-- Each run was that of the least step that had not succeeded yet. -/
  least_first (before : List Invocation) (i : Invocation) (behind : List Invocation) :
    history = before ++ i :: behind → i.position = (successes before).length ∧ i.position < total
  /-- So at any time the first steps have succeeded, in declaration order. -/
  successes_eq (before : List Invocation) :
    before <+: history → successes before = List.range (successes before).length
  /-- The others are pending. -/
  pending_length : (successes history).length + c.pending.length = total
  record_eq : c.record.2 = c.closeAll ∧ c.closeAll.calls = c.invocations.flatMap (·.calls)
  /-- Closed like any other closer, a chain answers an I/O error. -/
  close_eq : Closable.close c = c.closeAll.mapError CloseChainError.toIoError
  /-- It keeps kind, position and cause. -/
  toIoError_eq (e : CloseChainError) :
    e.toIoError = ⟨e.cause.kind, "close step " ++ toString e.position
      ++ " failed: " ++ e.cause.message, e.cause.message :: e.cause.causes⟩
  /-- A close succeeds just where all steps have succeeded behind it. -/
  ok_iff : c.closeAll.outcome = .ok ()
    ↔ successes (history ++ c.invocations) = List.range total
  /-- If it fails, it has run the steps from the first pending one to the one at the position of its
  error, in order, and that step failed with the cause of the error. -/
  of_error (e : CloseChainError) : c.closeAll.outcome = .error e →
    RanUpTo (successes history).length e.position (.error e.cause) c.invocations
      ∧ e.position + c.closeAll.state.pending.length = total
  /-- A step that crashes stays pending like one that fails. -/
  of_crash (message : String) : c.closeAll.outcome = .crash message → ∃ position,
    RanUpTo (successes history).length position (.crash message) c.invocations
      ∧ position + c.closeAll.state.pending.length = total
  /-- Once no step is pending, a close invokes nothing. -/
  of_no_pending : c.pending = [] → c.closeAll = ⟨.ok (), c, []⟩ ∧ c.invocations = []

/-- **Steps come to success one after another, each of them once**, whatever its owner does with a
chain and whatever its steps come to. -/
theorem steps_succeed_in_order (h : Life (ofWriter writer steps) history c) :
    Resumes steps.length history c where
  least_first before i behind hhistory := by
    subst hhistory
    have hfront : before ++ [i] <+: before ++ i :: behind := ⟨behind, by simp⟩
    exact (h.accounts.inOrder.of_prefix hfront).last.2
  successes_eq before hbefore := (h.accounts.inOrder.of_prefix hbefore).successes_eq
  pending_length := by
    rw [← h.accounts.closed_length]
    exact h.accounts.steps_length
  record_eq := ⟨c.record_reply, c.record_calls⟩
  close_eq := rfl
  toIoError_eq _ := rfl
  ok_iff := h.accounts.closeAll_ok_iff
  of_error e he := by
    -- only a close that broke off is an error
    rcases c.closeAll_cases with hend | ⟨position, outcome, hend⟩
    · cases hend.outcome.symm.trans he
    · obtain ⟨rfl, rfl⟩ := hend.of_error he
      exact ⟨h.accounts.closed_length ▸ hend.ranUpTo,
        hend.pending_length.trans h.accounts.steps_length⟩
  of_crash message he := by
    rcases c.closeAll_cases with hend | ⟨position, outcome, hend⟩
    · cases hend.outcome.symm.trans he
    · obtain rfl := hend.of_crash he
      exact ⟨position, h.accounts.closed_length ▸ hend.ranUpTo,
        hend.pending_length.trans h.accounts.steps_length⟩
  of_no_pending := closeAll_of_pending_eq_nil

end

/-- A step of its own, the close of the writer, and another step of its own. The writer's close
fails and crashes before it succeeds, and the last step fails at first. -/
def wornChain : CloseChain ScriptedSink Callback :=
  .ofWriter ⟨"sink", [], [], [.fail (.plain .timedOut "late"), .crash "boom"], [], false⟩
    [.owned ⟨"index", []⟩, .onWriter ScriptedSink.close,
      .owned ⟨"lock", [.fail (.plain .other "held")]⟩]

theorem steps_succeed_in_order_wornChain :
    ∃ history c, Life wornChain history c
      ∧ history.map (fun i => (i.position, i.succeeded))
        = [(0, true), (1, false), (1, false), (1, true), (2, false)]
      ∧ successes history = List.range 2
      ∧ c.pending.length = 1
      ∧ c.closeAll.outcome = .ok () := by
  have h : Life wornChain _ _ := .use .close (.use (.alter fun sink => { sink with data := [] })
    (.use .closeAll (.use (.write [97]) (.use .closeAll .start))))
  have hresumes := steps_succeed_in_order h
  refine ⟨_, _, h, by decide +kernel, hresumes.successes_eq _ (List.prefix_refl _), ?_,
    hresumes.ok_iff.mpr (by decide +kernel)⟩
  exact Nat.add_left_cancel hresumes.pending_length

end CloseChain

end MessageFraming
