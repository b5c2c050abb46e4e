import MessageFraming.Frame.FormatWriter
import MessageFraming.Proofs.Sink.Honest

/-!
# Frames that were not finished

A sink can fail at any byte of a frame, and then a front of the frame stays behind on it. `Wrote`
says this of a write: it returned and left all of its bytes, or it did not return and left a front
of them, with at least one byte missing.

* `ByteSink.writeAll_wrote`: this is how all bytes are written to an honest sink, however often it
  takes only some of them or is interrupted.
* `FormatWriter.writeFrame_wrote`: and so is a frame, whose head and payload are written one after
  the other. The writer goes on to the next state of its format in any case.
* `FrameWriter.attempts`: payloads that are written one after another, whatever becomes of each.
-/

namespace MessageFraming

/-! ## Torn pieces -/

/-- A front of `whole`, but not all of it. -/
def Torn (piece whole : Bytes) : Prop := piece <+: whole ∧ piece ≠ whole

/-- Nothing at all is a torn piece of any frame. -/
theorem torn_nil {whole : Bytes} (hne : whole ≠ []) : Torn [] whole :=
  ⟨List.nil_prefix, hne.symm⟩

namespace Torn

variable {piece whole front back : Bytes}

/-- A torn piece is shorter than the frame. -/
theorem length_lt (h : Torn piece whole) : piece.length < whole.length :=
  Nat.lt_of_not_le fun hle => h.2 (h.1.eq_of_length_le hle)

/-- A piece torn off a front is torn off the whole. -/
theorem of_append (h : Torn piece front) : Torn piece (front ++ back) := by
  obtain ⟨⟨rest, rfl⟩, hne⟩ := h
  refine ⟨⟨rest ++ back, (List.append_assoc _ _ _).symm⟩, fun heq => hne ?_⟩
  rw [List.append_assoc] at heq
  have hrest := List.append_eq_nil_iff.mp (List.self_eq_append_right.mp heq)
  rw [hrest.1, List.append_nil]

/-- So is the front with a piece torn off what is behind it. -/
theorem append_left (h : Torn piece back) : Torn (front ++ piece) (front ++ back) :=
  ⟨(List.prefix_append_right_inj front).mpr h.1, fun heq => h.2 (List.append_cancel_left heq)⟩

/-- What is torn ends inside the front, or reaches the back and ends there. -/
theorem cases_append (h : Torn piece (front ++ back)) :
    Torn piece front ∨ ∃ rest, Torn rest back ∧ piece = front ++ rest := by
  obtain ⟨hfront, hne⟩ := h
  by_cases hwhole : front <+: piece
  · obtain ⟨rest, rfl⟩ := hwhole
    refine Or.inr ⟨rest, ⟨(List.prefix_append_right_inj front).mp hfront, ?_⟩, rfl⟩
    rintro rfl
    exact hne rfl
  · -- two fronts of one list: one is a front of the other
    refine Or.inl ⟨?_, ?_⟩
    · exact (List.prefix_or_prefix_of_prefix hfront (List.prefix_append front back)).resolve_right
        hwhole
    · rintro rfl
      exact hwhole (List.prefix_refl _)

end Torn

/-! ## Writes -/

def Outcome.isOk {ε α : Type} : Outcome ε α → Bool
  | .ok _ => true
  | _ => false

@[simp] theorem Outcome.isOk_map {ε α β : Type} (f : α → β) (o : Outcome ε α) :
    (o.map f).isOk = o.isOk := by
  cases o <;> rfl

@[simp] theorem Outcome.isOk_mapError {ε δ α : Type} (f : ε → δ) (o : Outcome ε α) :
    (o.mapError f).isOk = o.isOk := by
  cases o <;> rfl

/-- What a write of `whole` answers, and what is on the sink after it if it was `before` so far. -/
inductive Wrote {ε α : Type} (value : α) (whole before : Bytes) (outcome : Outcome ε α)
    (now : Bytes) : Prop where
  | all (hok : outcome = .ok value) (hnow : now = before ++ whole)
  | torn {piece : Bytes} (hfail : outcome.isOk = false) (hpiece : Torn piece whole)
      (hnow : now = before ++ piece)

namespace Wrote

variable {ε α : Type} {value : α} {front back before now : Bytes} {outcome : Outcome ε α}

/-- A failure that left the wire as it was. -/
theorem of_nothing (hfail : outcome.isOk = false) (hne : back ≠ []) (hnow : now = before) :
    Wrote value back before outcome now :=
  .torn hfail (torn_nil hne) (hnow.trans (List.append_nil before).symm)

/-- A write that began with other bytes, which the sink took. -/
theorem behind (h : Wrote value back (before ++ front) outcome now) :
    Wrote value (front ++ back) before outcome now := by
  cases h with
  | all hok hnow => exact .all hok (hnow.trans (List.append_assoc before front back))
  | torn hfail hpiece hnow =>
    exact .torn hfail hpiece.append_left (hnow.trans (List.append_assoc before front _))

theorem map {β : Type} (f : α → β) (h : Wrote value back before outcome now) :
    Wrote (f value) back before (outcome.map f) now := by
  cases h with
  | all hok hnow => exact .all (congrArg (Outcome.map f) hok) hnow
  | torn hfail hpiece hnow => exact .torn ((outcome.isOk_map f).trans hfail) hpiece hnow

theorem mapError {δ : Type} (f : ε → δ) (h : Wrote value back before outcome now) :
    Wrote value back before (outcome.mapError f) now := by
  cases h with
  | all hok hnow => exact .all (congrArg (Outcome.mapError f) hok) hnow
  | torn hfail hpiece hnow => exact .torn ((outcome.isOk_mapError f).trans hfail) hpiece hnow

end Wrote

open HonestSink

section

variable {σ : Type} [ByteSink σ] [HonestSink σ]

/-- **All bytes, or a front of them.** Recursion of `writeAll`: each round puts what the sink took
behind what is there, and the next one offers the rest. -/
theorem ByteSink.writeAll_wrote (bytes : Bytes) (s : σ) :
    Wrote () bytes (data s) (writeAll bytes s).outcome (data (writeAll bytes s).state) := by
  fun_induction writeAll bytes s with
  | case1 s => exact .all rfl (List.append_nil _).symm
  | case2 bytes s hne s' calls h =>
    exact .of_nothing rfl hne ((data_of_write h).trans (List.append_nil _))
  | case3 bytes s hne n s' calls h ih =>
    have htaken : data s' = data s ++ bytes.take (n + 1) := data_of_write h
    rw [htaken] at ih
    have hbehind := ih.behind
    rwa [List.take_append_drop] at hbehind
  | case4 bytes s hne e s' calls h he ih =>
    -- an interrupted write took nothing
    have hsame : data s' = data s := (data_of_write h).trans (List.append_nil _)
    rwa [hsame] at ih
  | case5 bytes s hne e s' calls h he =>
    exact .of_nothing rfl hne ((data_of_write h).trans (List.append_nil _))
  | case6 bytes s hne message s' calls h =>
    exact .of_nothing rfl hne ((data_of_write h).trans (List.append_nil _))

namespace FormatWriter

variable {f : WireFormat}

/-- A head and a payload, both written in full one after the other, are one frame or a torn one. -/
theorem writeParts_wrote (step : FrameError.Step) (head payload : Bytes) (sink : σ) :
    Wrote (head.length + payload.length) (head ++ payload) (data sink)
      (writeParts step head payload sink).outcome
      (data (writeParts step head payload sink).state) := by
  have hhead := ByteSink.writeAll_wrote head sink
  unfold writeParts
  rcases hreply : ByteSink.writeAll head sink with ⟨value | e | message, middle, calls⟩
  all_goals rw [hreply] at hhead
  · cases hhead with
    | torn hfail => cases hfail
    | all _ hmiddle =>
      -- the head is there, and the payload goes behind it
      have hpayload := ByteSink.writeAll_wrote payload middle
      rw [hmiddle] at hpayload
      have hstep := hpayload.mapError (FrameError.io .writePayload)
      exact (hstep.map fun _ => head.length + payload.length).behind
  · cases hhead with
    | all hok => cases hok
    | torn _ hpiece hnow => exact .torn rfl hpiece.of_append hnow
  · cases hhead with
    | all hok => cases hok
    | torn _ hpiece hnow => exact .torn rfl hpiece.of_append hnow

/-- **A whole frame, or a front of it.** -/
theorem writeFrame_wrote (payload : Bytes) (w : FormatWriter f σ) :
    Wrote (f.frame w.state payload).length (f.frame w.state payload) (data w.sink)
      (w.writeFrame payload).outcome (data (w.writeFrame payload).state.sink) := by
  have hparts := writeParts_wrote f.headStep (f.head w.state payload) payload w.sink
  rwa [← List.length_append] at hparts

end FormatWriter

end

/-! ## Runs -/

namespace FrameWriter

variable {ω : Type} [FrameWriter ω]

/-- Writes payloads in order and goes on behind those that fail; how each write ended. -/
def attempts : List Bytes → ω → List (Bytes × Outcome FrameError Nat)
  | [], _ => []
  | payload :: payloads, w =>
    (payload, (writeFrame payload w).outcome) :: attempts payloads (writeFrame payload w).state

/-- The writer behind them. -/
def afterAttempts : List Bytes → ω → ω
  | [], w => w
  | payload :: payloads, w => afterAttempts payloads (writeFrame payload w).state

/-- The payloads whose writes returned. -/
def acknowledged (attempts : List (Bytes × Outcome FrameError Nat)) : List Bytes :=
  (attempts.filter (·.2.isOk)).map (·.1)

/-- The payloads whose writes did not. -/
def failed (attempts : List (Bytes × Outcome FrameError Nat)) : List Bytes :=
  (attempts.filter (!·.2.isOk)).map (·.1)

section

variable {attempt : Bytes × Outcome FrameError Nat} {later : List (Bytes × Outcome FrameError Nat)}

theorem acknowledged_cons_of_ok (h : attempt.2.isOk) :
    acknowledged (attempt :: later) = attempt.1 :: acknowledged later := by
  simp [acknowledged, h]

theorem acknowledged_cons_of_failed (h : ¬ attempt.2.isOk) :
    acknowledged (attempt :: later) = acknowledged later := by
  simp [acknowledged, h]

/-- What failed later has failed. -/
theorem failed_subset_cons : failed later ⊆ failed (attempt :: later) :=
  List.map_subset _ (List.filter_subset _ (List.subset_cons_self _ _))

theorem mem_failed_cons (h : ¬ attempt.2.isOk) : attempt.1 ∈ failed (attempt :: later) :=
  List.mem_map_of_mem (List.mem_filter.mpr ⟨List.mem_cons_self, by simpa using h⟩)

end

end FrameWriter

end MessageFraming
