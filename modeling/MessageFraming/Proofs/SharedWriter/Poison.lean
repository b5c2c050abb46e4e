import MessageFraming.LengthPrefixed.Format
import MessageFraming.Proofs.Frame.Torn
import MessageFraming.SharedWriter
import Mathlib.Data.List.Induction

/-!
# A torn frame is the last one

Requests come to a shared writer by all three ways, in any mix, and any of them may crash. What a
request does is known once it is known of a free writer and of a poisoned one: the first one does
just what the writer behind the lock does, and is poisoned if that crashed with the lock taken; the
second one refuses whatever there is to do.

* `SharedWriter.serve_of_free`, `SharedWriter.serve_of_poisoned`: the two cases, for all requests.
  A batch is an induction on its payloads.
* `Recording`: a writer that keeps a record of the calls it gets. But for the record nothing is
  different (`SharedWriter.serve_forget`), and a request crashes just where a call of it did
  (`Recording.Recorded`).
* `SharedWriter.torn_frame_is_last`: what that comes to at any point of a session.
-/

namespace MessageFraming

/-! ## Requests -/

/-- What is asked of a frame writer. -/
inductive FrameWriter.Request where
  | writeFrame (payload : Bytes)
  | writeFrames (payloads : List Bytes)
  | flush
deriving Repr, DecidableEq

open FrameWriter (Request)

/-- A batch of no payloads, for which there is nothing to do. -/
def FrameWriter.Request.isIdle : Request → Bool
  | writeFrames payloads => payloads.isEmpty
  | _ => false

def Outcome.isCrash {ε α : Type} : Outcome ε α → Bool
  | crash _ => true
  | _ => false

@[simp] theorem Outcome.isCrash_map {ε α β : Type} (f : α → β) (o : Outcome ε α) :
    (o.map f).isCrash = o.isCrash := by
  cases o <;> rfl

section

variable {ω : Type} [FrameWriter ω]

/-- What a frame writer does when it is asked directly. The value is that of a write. -/
def FrameWriter.serve : Request → ω → Reply ω FrameError (Option Nat)
  | .writeFrame payload, w => (writeFrame payload w).map some
  | .writeFrames payloads, w => (writeFrames payloads w).map some
  | .flush, w => (flush w).map fun _ => none

/-- What a shared writer does when it is asked by way of `via`. -/
def SharedWriter.serve (via : Access) :
    Request → SharedWriter ω → Reply (SharedWriter ω) FrameError (Option Nat)
  | .writeFrame payload, w => (w.writeFrame via payload).map some
  | .writeFrames payloads, w => (w.writeFrames via payloads).map some
  | .flush, w => (w.flush via).map fun _ => none

/-- The shared writer behind some requests, whatever became of each. -/
def SharedWriter.afterAll : List (Access × Request) → SharedWriter ω → SharedWriter ω
  | [], w => w
  | (via, request) :: steps, w => afterAll steps (w.serve via request).state

end

/-! ## Free and poisoned writers -/

/-- The reply of a writer as one behind a lock, which is poisoned by a crash if it was taken. -/
def Reply.behind {ω ε α : Type} (via : Access) (r : Reply ω ε α) : Reply (SharedWriter ω) ε α :=
  ⟨r.outcome, ⟨r.state, via.takesLock && r.outcome.isCrash⟩, r.calls⟩

theorem Reply.behind_map {ω ε α β : Type} (via : Access) (f : α → β) (r : Reply ω ε α) :
    (r.behind via).map f = (r.map f).behind via := by
  rw [behind, behind, map, map, Outcome.isCrash_map]

/-- A value has left the lock as it was, so whatever comes next finds it free. -/
theorem Reply.behind_bind {ω ε α β : Type} {via : Access} {next : α → ω → Reply ω ε β}
    {next' : α → SharedWriter ω → Reply (SharedWriter ω) ε β}
    (h : ∀ value w, next' value ⟨w, false⟩ = (next value w).behind via) (r : Reply ω ε α) :
    (r.behind via).bind next' = (r.bind next).behind via := by
  rcases r with ⟨value | e | message, w, calls⟩
  · show (next' value ⟨w, via.takesLock && false⟩).after calls = _
    rw [Bool.and_false, h]
    rfl
  · rfl
  · rfl

namespace SharedWriter

section

variable {ω α : Type} {via : Access} {w : SharedWriter ω}

/-- A writer that is not poisoned lets the action through. -/
theorem access_of_free (h : w.poisoned = false) (action : ω → Reply ω FrameError α) :
    w.access via action = (action w.writer).behind via := by
  rw [access, h]
  rcases hreply : action w.writer with ⟨value | e | message, next, calls⟩ <;>
    simp [Reply.behind, Outcome.isCrash]

/-- A poisoned one refuses it, and stays as it is. -/
theorem access_of_poisoned (h : w.poisoned = true) (action : ω → Reply ω FrameError α) :
    w.access via action = ⟨.error .poisoned, w, []⟩ := by
  rw [access, if_pos h]

variable [FrameWriter ω]

theorem writeFrames_cons (payload : Bytes) (payloads : List Bytes) :
    w.writeFrames via (payload :: payloads)
      = (w.writeFrame via payload).bind fun count w =>
          (w.writeFrames via payloads).map fun total => count + total := rfl

/-- A batch finds the lock free up to the first crash. Induction on its payloads. -/
theorem writeFrames_of_free (h : w.poisoned = false) (payloads : List Bytes) :
    w.writeFrames via payloads = (FrameWriter.writeFrames payloads w.writer).behind via := by
  induction payloads generalizing w with
  | nil =>
    obtain ⟨writer, poisoned⟩ := w
    cases h
    cases via <;> rfl
  | cons payload payloads ih =>
    -- the first payload gets through, and what it leaves decides for the others
    have hfirst : w.writeFrame via payload = (FrameWriter.writeFrame payload w.writer).behind via :=
      access_of_free h _
    rw [writeFrames_cons, hfirst]
    refine Reply.behind_bind (fun count next => ?_) _
    rw [ih rfl, Reply.behind_map]
    rfl

/-- It refuses to write payloads, if there are any. -/
theorem writeFrames_of_poisoned (h : w.poisoned = true) {payloads : List Bytes}
    (hne : payloads ≠ []) : w.writeFrames via payloads = ⟨.error .poisoned, w, []⟩ := by
  obtain ⟨payload, payloads, rfl⟩ := List.exists_cons_of_ne_nil hne
  have hfirst : w.writeFrame via payload = ⟨.error .poisoned, w, []⟩ := access_of_poisoned h _
  rw [writeFrames_cons, hfirst]
  rfl

/-- **A free writer does what the writer behind the lock does.** -/
theorem serve_of_free (h : w.poisoned = false) (request : Request) :
    w.serve via request = (FrameWriter.serve request w.writer).behind via := by
  cases request with
  | writeFrame payload =>
    exact (congrArg _ (access_of_free h _)).trans (Reply.behind_map via _ _)
  | writeFrames payloads =>
    exact (congrArg _ (writeFrames_of_free h payloads)).trans (Reply.behind_map via _ _)
  | flush => exact (congrArg _ (access_of_free h _)).trans (Reply.behind_map via _ _)

/-- **A poisoned writer refuses all that there is to do**, and calls nobody. -/
theorem serve_of_poisoned (h : w.poisoned = true) (request : Request) :
    w.serve via request
      = ⟨if request.isIdle then .ok (some 0) else .error .poisoned, w, []⟩ := by
  cases request with
  | writeFrame payload => exact congrArg (Reply.map some) (access_of_poisoned h _)
  | writeFrames payloads =>
    by_cases hnil : payloads = []
    · rw [hnil]
      rfl
    · rw [Request.isIdle, if_neg (by simpa using hnil)]
      exact congrArg (Reply.map some) (writeFrames_of_poisoned h hnil)
  | flush => exact congrArg (Reply.map fun _ => none) (access_of_poisoned h _)

/-- Nothing happens behind a poisoned lock any more. Induction on the requests. -/
theorem afterAll_of_poisoned (h : w.poisoned = true) (steps : List (Access × Request)) :
    afterAll steps w = w := by
  induction steps with
  | nil => rfl
  | cons step steps ih =>
    show afterAll steps (w.serve step.1 step.2).state = w
    rw [serve_of_poisoned h]
    exact ih

end

end SharedWriter

/-! ## Recorded calls -/

/-- A call of a frame writer: the payload it had to write, if it was not a flush, and whether it
crashed. -/
structure Recording.Call where
  payload : Option Bytes
  crashed : Bool
deriving Repr, DecidableEq

/-- A frame writer with a record of the calls it got. -/
structure Recording (ω : Type) where
  writer : ω
  made : List Recording.Call
deriving Repr, DecidableEq

namespace Recording

variable {ω α β : Type}

/-- The reply of the writer to one more call. -/
def note (payload : Option Bytes) (r : Recording ω) (reply : Reply ω FrameError α) :
    Reply (Recording ω) FrameError α :=
  ⟨reply.outcome, ⟨reply.state, r.made ++ [⟨payload, reply.outcome.isCrash⟩]⟩, reply.calls⟩

instance [FrameWriter ω] : FrameWriter (Recording ω) where
  writeFrame payload r := r.note payload (FrameWriter.writeFrame payload r.writer)
  flush r := r.note none (FrameWriter.flush r.writer)

/-- The reply of a recording is that of its writer, and it crashed just where one of its calls
did. -/
structure Recorded (r : Recording ω) (reply : Reply (Recording ω) FrameError α)
    (direct : Reply ω FrameError α) : Prop where
  mapState_eq : reply.mapState Recording.writer = direct
  crashed_iff : ∃ made, reply.state.made = r.made ++ made
    ∧ (reply.outcome.isCrash ↔ ∃ call ∈ made, call.crashed)

/-- A call that is noted answers as it does unnoted. -/
theorem recorded_note (payload : Option Bytes) (r : Recording ω) (reply : Reply ω FrameError α) :
    r.Recorded (r.note payload reply) reply :=
  ⟨rfl, _, rfl, by simp [note]⟩

theorem recorded_pure (value : α) (r : Recording ω) :
    r.Recorded (.pure value r) (.pure value r.writer) :=
  ⟨rfl, [], (List.append_nil _).symm, by simp [Reply.pure, Outcome.isCrash]⟩

namespace Recorded

variable {r : Recording ω} {reply : Reply (Recording ω) FrameError α}
  {direct : Reply ω FrameError α}

/-- A function of the value makes no difference to the record. -/
theorem map (h : r.Recorded reply direct) (f : α → β) :
    r.Recorded (reply.map f) (direct.map f) := by
  obtain ⟨rfl, made, hmade, hcrash⟩ := h
  refine ⟨rfl, made, hmade, ?_⟩
  rw [← hcrash]
  exact Bool.eq_iff_iff.mp (Outcome.isCrash_map f reply.outcome)

/-- Calls that come behind others. -/
theorem bind {next : α → Recording ω → Reply (Recording ω) FrameError β}
    {directNext : α → ω → Reply ω FrameError β} (h : r.Recorded reply direct)
    (hnext : ∀ value (r : Recording ω), r.Recorded (next value r) (directNext value r.writer)) :
    r.Recorded (reply.bind next) (direct.bind directNext) := by
  obtain ⟨rfl, made, hmade, hcrash⟩ := h
  rcases reply with ⟨value | e | message, r', calls⟩
  · obtain ⟨hdirect, later, hlater, hcrash'⟩ := hnext value r'
    refine ⟨?_, made ++ later, ?_, ?_⟩
    · show (Reply.after calls (next value r')).mapState writer = Reply.after calls _
      rw [← hdirect]
      rfl
    · rw [← List.append_assoc, ← hmade]
      exact hlater
    · -- the calls so far went well
      have hmade' : ¬ ∃ call ∈ made, call.crashed := fun hsome => by cases hcrash.mpr hsome
      refine hcrash'.trans ⟨fun ⟨call, hmem, hcall⟩ => ⟨call, List.mem_append_right _ hmem, hcall⟩,
        fun ⟨call, hmem, hcall⟩ => ?_⟩
      rcases List.mem_append.mp hmem with hmem | hmem
      · exact absurd ⟨call, hmem, hcall⟩ hmade'
      · exact ⟨call, hmem, hcall⟩
  · exact ⟨rfl, made, hmade, hcrash⟩
  · exact ⟨rfl, made, hmade, hcrash⟩

end Recorded

variable [FrameWriter ω]

/-- A batch records one call for each write up to its first failure. Induction on the payloads. -/
theorem recorded_writeFrames (payloads : List Bytes) (r : Recording ω) :
    r.Recorded (FrameWriter.writeFrames payloads r)
      (FrameWriter.writeFrames payloads r.writer) := by
  induction payloads generalizing r with
  | nil => exact recorded_pure 0 r
  | cons payload payloads ih =>
    exact (recorded_note _ r _).bind fun count next => (ih next).map fun total => count + total

/-- A request is served alike with and without a record. -/
theorem recorded_serve (request : Request) (r : Recording ω) :
    r.Recorded (FrameWriter.serve request r) (FrameWriter.serve request r.writer) := by
  cases request with
  | writeFrame payload => exact (recorded_note _ _ _).map some
  | writeFrames payloads => exact (recorded_writeFrames payloads r).map some
  | flush => exact (recorded_note _ _ _).map fun _ => none

end Recording

namespace SharedWriter

variable {ω : Type} [FrameWriter ω]

/-! ## Sessions -/

/-- Later steps go on from where the others have led. -/
theorem afterAll_append (steps later : List (Access × Request)) (w : SharedWriter ω) :
    afterAll (steps ++ later) w = afterAll later (afterAll steps w) := by
  induction steps generalizing w with
  | nil => rfl
  | cons step steps ih => exact ih _

/-- A shared writer without the record. -/
def forget (w : SharedWriter (Recording ω)) : SharedWriter ω := ⟨w.writer.writer, w.poisoned⟩

/-- **But for the record nothing is different.** -/
theorem serve_forget (via : Access) (request : Request) (w : SharedWriter (Recording ω)) :
    (w.serve via request).mapState forget = w.forget.serve via request := by
  cases hpoisoned : w.poisoned with
  | true =>
    have hforget : w.forget.poisoned = true := hpoisoned
    rw [serve_of_poisoned hpoisoned, serve_of_poisoned hforget]
    rfl
  | false =>
    have hforget : w.forget.poisoned = false := hpoisoned
    rw [serve_of_free hpoisoned, serve_of_free hforget, forget,
      ← (Recording.recorded_serve request w.writer).mapState_eq]
    rfl

/-- What a recording writer does is what the writer does that it records. -/
theorem afterAll_forget (steps : List (Access × Request)) (w : SharedWriter (Recording ω)) :
    (afterAll steps w).forget = afterAll steps w.forget := by
  induction steps generalizing w with
  | nil => rfl
  | cons step steps ih =>
    have hstep := congrArg Reply.state (serve_forget step.1 step.2 w)
    exact (ih _).trans (congrArg (afterAll steps) hstep)

/-- The calls that a request makes of the writer behind the lock poison it if one of them crashes
and the lock was taken. -/
theorem serve_poisons (via : Access) (request : Request) (w : SharedWriter (Recording ω)) :
    ∃ made, (w.serve via request).state.writer.made = w.writer.made ++ made
      ∧ ((w.serve via request).state.poisoned
        ↔ w.poisoned ∨ via.takesLock ∧ ∃ call ∈ made, call.crashed) := by
  cases hpoisoned : w.poisoned with
  -- a poisoned writer makes no call
  | true =>
    rw [serve_of_poisoned hpoisoned]
    exact ⟨[], (List.append_nil _).symm, by simp [hpoisoned]⟩
  | false =>
    obtain ⟨-, made, hmade, hcrash⟩ := Recording.recorded_serve request w.writer
    rw [serve_of_free hpoisoned]
    refine ⟨made, hmade, ?_⟩
    show (via.takesLock && _) = true ↔ _
    rw [Bool.and_eq_true, hcrash]
    simp

/-- The writer `inner` behind a lock, with a record of its calls, after `steps`. -/
def recorded (inner : ω) (steps : List (Access × Request)) : SharedWriter (Recording ω) :=
  afterAll steps (ofWriter ⟨inner, []⟩)

theorem recorded_append (inner : ω) (steps later : List (Access × Request)) :
    recorded inner (steps ++ later) = afterAll later (recorded inner steps) :=
  afterAll_append steps later _

theorem recorded_forget (inner : ω) (steps : List (Access × Request)) :
    (recorded inner steps).forget = afterAll steps (ofWriter inner) :=
  afterAll_forget steps _

/-- A request behind `steps` makes the calls `made` of `inner`. -/
def Makes (inner : ω) (steps : List (Access × Request)) (via : Access) (request : Request)
    (made : List Recording.Call) : Prop :=
  (recorded inner (steps ++ [(via, request)])).writer.made
    = (recorded inner steps).writer.made ++ made

/-- A request makes one row of calls. -/
theorem Makes.unique {inner : ω} {steps : List (Access × Request)} {via : Access}
    {request : Request} {made made' : List Recording.Call} (h : Makes inner steps via request made)
    (h' : Makes inner steps via request made') : made = made' :=
  List.append_cancel_left (h.symm.trans h')

/-- One more request. -/
theorem recorded_concat (inner : ω) (steps : List (Access × Request)) (via : Access)
    (request : Request) :
    ∃ made, Makes inner steps via request made
      ∧ ((recorded inner (steps ++ [(via, request)])).poisoned
        ↔ (recorded inner steps).poisoned ∨ via.takesLock ∧ ∃ call ∈ made, call.crashed) := by
  obtain ⟨made, hmade, hpoisoned⟩ := serve_poisons via request (recorded inner steps)
  have hnext : recorded inner (steps ++ [(via, request)])
      = ((recorded inner steps).serve via request).state := recorded_append inner steps _
  refine ⟨made, ?_, ?_⟩
  · rw [Makes, hnext]
    exact hmade
  · rw [hnext]
    exact hpoisoned

/-- **A writer is poisoned by a crash behind the lock, and by nothing else.** Induction on the
requests, from the last one. -/
theorem recorded_poisoned_iff (inner : ω) (steps : List (Access × Request)) :
    (recorded inner steps).poisoned
      ↔ ∃ before via request later, steps = before ++ (via, request) :: later
        ∧ via.takesLock ∧ ∃ made, Makes inner before via request made
          ∧ ∃ call ∈ made, call.crashed := by
  induction steps using List.reverseRecOn with
  | nil =>
    refine iff_of_false Bool.false_ne_true ?_
    rintro ⟨before, via, request, later, heq, -⟩
    exact List.append_ne_nil_of_right_ne_nil _ (List.cons_ne_nil _ _) heq.symm
  | append_singleton steps step ih =>
    obtain ⟨made, hmade, hpoisoned⟩ := recorded_concat inner steps step.1 step.2
    rw [hpoisoned]
    constructor
    · -- it was poisoned before, or the last step has poisoned it
      rintro (hearlier | ⟨hlock, hcrash⟩)
      · obtain ⟨before, via, request, later, rfl, hcrash⟩ := ih.mp hearlier
        exact ⟨before, via, request, later ++ [step], by simp, hcrash⟩
      · exact ⟨steps, step.1, step.2, [], rfl, hlock, made, hmade, hcrash⟩
    · rintro ⟨before, via, request, later, heq, hlock, made', hmade', hcrash⟩
      -- the step that poisoned it is the last one or an earlier one
      rcases List.eq_nil_or_concat later with rfl | ⟨later, last, rfl⟩
      · obtain ⟨rfl, hlast⟩ := List.append_inj' heq rfl
        cases hlast
        exact Or.inr ⟨hlock, hmade.unique hmade' ▸ hcrash⟩
      · rw [List.concat_eq_append, ← List.cons_append, ← List.append_assoc] at heq
        obtain ⟨rfl, -⟩ := List.append_inj' heq rfl
        exact Or.inl (ih.mpr ⟨before, via, request, later, rfl, hlock, made', hmade', hcrash⟩)

/-- How a shared writer of `inner` stands behind `steps`, and what it does next. -/
structure TornLast (inner : ω) (steps : List (Access × Request)) : Prop where
  /-- It is poisoned just where an inner call crashed with the lock taken. An exclusive access takes
  none, and an error is no crash. -/
  poisoned_iff : (recorded inner steps).poisoned
    ↔ ∃ before via request later, steps = before ++ (via, request) :: later
      ∧ via.takesLock ∧ ∃ made, Makes inner before via request made ∧ ∃ call ∈ made, call.crashed
  /-- That the inner calls are recorded makes no difference. -/
  forget_eq : (recorded inner steps).forget = afterAll steps (ofWriter inner)
  reply_eq (via : Access) (request : Request) :
    ((recorded inner steps).serve via request).mapState forget
      = (afterAll steps (ofWriter inner)).serve via request
  /-- While it is not poisoned every request has the result and the effect that it has on the inner
  writer. -/
  direct (hfree : (afterAll steps (ofWriter inner)).poisoned = false) (via : Access)
    (request : Request) :
    ((afterAll steps (ofWriter inner)).serve via request).mapState SharedWriter.writer
      = FrameWriter.serve request (afterAll steps (ofWriter inner)).writer
  /-- Once it is poisoned every request is refused that has something to do, and changes nothing. -/
  refused (hpoisoned : (afterAll steps (ofWriter inner)).poisoned = true) (via : Access)
    (request : Request) :
    (afterAll steps (ofWriter inner)).serve via request
      = ⟨if request.isIdle then .ok (some 0) else .error .poisoned,
        afterAll steps (ofWriter inner), []⟩
  /-- The inner writer is never called again, and stays as it is. -/
  stays (hpoisoned : (recorded inner steps).poisoned = true) (later : List (Access × Request)) :
    recorded inner (steps ++ later) = recorded inner steps
  /-- A poisoned writer is not given back. -/
  released : (afterAll steps (ofWriter inner)).release
    = if (afterAll steps (ofWriter inner)).poisoned then .error .poisoned
      else .ok (afterAll steps (ofWriter inner)).writer

/-- **A torn frame is the last one**, for every inner writer and whatever was asked of it so far, by
whichever ways. -/
theorem torn_frame_is_last (inner : ω) (steps : List (Access × Request)) :
    TornLast inner steps where
  poisoned_iff := recorded_poisoned_iff inner steps
  forget_eq := recorded_forget inner steps
  reply_eq via request := by
    rw [← recorded_forget]
    exact serve_forget via request _
  direct hfree via request := by
    rw [serve_of_free hfree]
    rfl
  refused hpoisoned via request := serve_of_poisoned hpoisoned request
  stays hpoisoned later := by
    rw [recorded_append]
    exact afterAll_of_poisoned hpoisoned later
  released := rfl

/-- A writer whose sink crashes at its second write, behind the head of the first frame. -/
def tearingWriter : FormatWriter LengthPrefixed.format ScriptedSink := .ofSink
  { name := "pipe"
    writes := [.accept none, .crash "torn"]
    flushes := []
    closes := []
    data := []
    closed := false }

/-- There is nothing to refuse in a batch of no payloads. -/
theorem idle_batch_returns :
    (afterAll [(.shared, .writeFrame [120])] (ofWriter tearingWriter)).poisoned = true
      ∧ ¬ ∀ via request, ((afterAll [(.shared, .writeFrame [120])] (ofWriter tearingWriter)).serve
        via request).outcome = .error .poisoned := by
  refine ⟨by decide +kernel, fun h => ?_⟩
  cases h .reference (.writeFrames [])

theorem torn_frame_is_last_tearingWriter :
    (afterAll [(.exclusive, .writeFrame [120])] (ofWriter tearingWriter)).poisoned = false
      ∧ (∀ later,
        let w := recorded tearingWriter ((.shared, .writeFrame [120]) :: later)
        w.writer.made = [⟨some [120], true⟩] ∧ w.writer.writer.sink.data = [1])
      ∧ ((afterAll [(.shared, .writeFrame [120])] (ofWriter tearingWriter)).serve .exclusive
        (.writeFrames [[121], []])).outcome = .error .poisoned := by
  have hpoisoned : (recorded tearingWriter [(.shared, .writeFrame [120])]).poisoned = true := by
    decide +kernel
  have htorn := torn_frame_is_last tearingWriter [(.shared, .writeFrame [120])]
  refine ⟨by decide +kernel, fun later => ?_, ?_⟩
  · -- whatever comes later, the writer stays as the crash has left it
    have hsame := htorn.stays hpoisoned later
    rw [List.singleton_append] at hsame
    rw [hsame]
    exact ⟨by decide +kernel, by decide +kernel⟩
  · rw [htorn.refused (htorn.forget_eq ▸ hpoisoned)]
    rfl

end SharedWriter

end MessageFraming
