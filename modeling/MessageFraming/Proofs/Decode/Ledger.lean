import Mathlib.Algebra.BigOperators.Group.List.Basic
import Mathlib.Algebra.Order.Group.Multiset
import Mathlib.Tactic.Abel
import MessageFraming.Proofs.Decode.Endings
import MessageFraming.Proofs.Decode.Reassembly

/-!
# Nothing is lost in a pipeline

Two ledgers say where things are. Both are equations between multisets, as interleavings change the
order of everything.

* `Pipeline.Run.chunks_eq`: every chunk that was produced has been decoded once, or is on its way to
  a worker. Only a splitter that was refused has lost one.
* `Pipeline.Run.settled`: as long as the collector has not stopped, every report of a worker is on
  its way to the collector, or has become part of what the collector holds. If it has stopped, one
  of the reports tells why (`Pipeline.Faulty`).
-/

namespace MessageFraming

namespace Pipeline

/-- A sum over a list in which one element is replaced. -/
theorem sum_map_set {α M : Type} [AddCommMonoid M] (f : α → M) {l : List α} {i : Nat} {a b : α}
    (h : l[i]? = some a) : ((l.set i b).map f).sum + f a = (l.map f).sum + f b := by
  induction l generalizing i with
  | nil => cases h
  | cons x xs ih =>
    cases i with
    -- the element that is replaced stands in front
    | zero =>
      rw [List.getElem?_cons_zero, Option.some.injEq] at h
      subst h
      rw [List.set_cons_zero, List.map_cons, List.map_cons, List.sum_cons, List.sum_cons]
      abel
    | succ i =>
      rw [List.getElem?_cons_succ] at h
      rw [List.set_cons_succ, List.map_cons, List.map_cons, List.sum_cons, List.sum_cons,
        add_assoc, ih h, add_assoc]

/-- An element may be replaced by one that counts the same. -/
theorem sum_map_set_of_eq {α M : Type} [AddCancelCommMonoid M] (f : α → M) {l : List α} {i : Nat}
    {a b : α} (h : l[i]? = some a) (hf : f a = f b) : ((l.set i b).map f).sum = (l.map f).sum := by
  have hsum := sum_map_set f (b := b) h
  rw [hf] at hsum
  exact add_right_cancel hsum

/-! ## Chunks -/

/-- The chunk that the splitter has in hand. -/
def splitterHolds : Splitter → Multiset Chunk
  | .sending chunk => {chunk}
  | _ => 0

/-- The chunk that a worker has in hand. -/
def workerHolds : Worker → Multiset Chunk
  | .decoding chunk => {chunk}
  | _ => 0

def decodedChunks (events : List Event) : Multiset Chunk := ((decodings events).map (·.1) : List _)

/-- The chunks on their way from the feed to the decoder. -/
def underway {σ : Type} (s : State σ) : Multiset Chunk :=
  splitterHolds s.splitter + s.chunks + (s.workers.map workerHolds).sum

theorem decodedChunks_append (a b : List Event) :
    decodedChunks (a ++ b) = decodedChunks a + decodedChunks b := by
  unfold decodedChunks
  rw [decodings_append, List.map_append, Multiset.coe_add]

section Chunks

variable {σ : Type} [ChunkFeed σ] {profile : Profile} {feed : σ} {events : List Event} {s : State σ}

/-- A splitter that was refused by the workers has ended. -/
theorem Move.splitter_eq_of_refused {capacity : Nat} {seen : List Event} {s' : State σ}
    (h : Move capacity s seen s') (hs : s.splitter = .done (.failed .workersGone)) :
    s'.splitter = .done (.failed .workersGone) := by
  cases h with
  | fetched hs' | ended hs' | feedFailed hs' | feedCrashed hs' | queued hs' =>
    rw [hs'] at hs
    cases hs
  | refused => rfl
  | _ => exact hs

/-- What one move does with chunks: it passes them on. Only a refusal loses one. -/
theorem Move.chunks_eq {capacity : Nat} {seen : List Event} {s' : State σ}
    (h : Move capacity s seen s') :
    ∃ lost, underway s + (produced seen : List Chunk) = lost + underway s' + decodedChunks seen
      ∧ (lost = 0 ∨ s'.splitter = .done (.failed .workersGone)) := by
  cases h with
  | fetched hs hnext =>
    refine ⟨0, ?_, Or.inl rfl⟩
    simp only [underway, hs, splitterHolds, produced_chunk, decodedChunks, decodings_fed,
      List.map_nil, Multiset.coe_nil, Multiset.coe_singleton]
    abel
  | ended hs | feedFailed hs | feedCrashed hs =>
    refine ⟨0, ?_, Or.inl rfl⟩
    show underway s + 0 = _ + 0
    simp only [underway, hs, splitterHolds]
    abel
  | @refused chunk hs hgone =>
    -- the chunk in the splitter's hands goes nowhere
    refine ⟨{chunk}, ?_, Or.inr rfl⟩
    show underway s + 0 = _ + 0
    simp only [underway, hs, splitterHolds]
    abel
  | @queued chunk hs halive hroom =>
    refine ⟨0, ?_, Or.inl rfl⟩
    show underway s + 0 = _ + 0
    simp only [underway, hs, splitterHolds, ← Multiset.coe_add, Multiset.coe_singleton]
    abel
  | @took i chunk chunks hw hc =>
    -- what the queue loses is what the worker gets
    refine ⟨0, ?_, Or.inl rfl⟩
    have hsum := sum_map_set workerHolds (b := .decoding chunk) hw
    simp only [workerHolds, add_zero] at hsum
    show underway s + 0 = _ + 0
    simp only [underway, hc, hsum, ← Multiset.cons_coe, ← Multiset.singleton_add]
    abel
  | @decoded i chunk outcome hw =>
    -- the chunk leaves the worker, whatever the outcome
    refine ⟨0, ?_, Or.inl rfl⟩
    have hsum := sum_map_set workerHolds (b := workerAfter outcome) hw
    have hafter : workerHolds (workerAfter outcome) = 0 := by cases outcome <;> rfl
    rw [hafter, add_zero] at hsum
    simp only [workerHolds] at hsum
    simp only [underway, ← hsum, produced_decoded, decodedChunks, decodings_decoded,
      List.map_singleton, Multiset.coe_nil, Multiset.coe_singleton]
    abel
  | retired hw | dropped hw =>
    refine ⟨0, ?_, Or.inl rfl⟩
    show underway s + 0 = _ + 0
    simp only [underway, sum_map_set_of_eq workerHolds (b := .left) hw rfl, zero_add]
  | delivered hw =>
    refine ⟨0, ?_, Or.inl rfl⟩
    show underway s + 0 = _ + 0
    simp only [underway, sum_map_set_of_eq workerHolds (b := .idle) hw rfl, zero_add]
  | accepted | rejected | failed | closed | drained =>
    refine ⟨0, ?_, Or.inl rfl⟩
    show underway s + 0 = 0 + underway s + 0
    abel

/-- **Chunks are accounted for.** Every chunk that was produced was decoded once or is underway;
only a refused splitter has lost one. -/
theorem Run.chunks_eq (h : Run profile feed events s) :
    ∃ lost, ((produced events : List Chunk) : Multiset Chunk)
        = lost + underway s + decodedChunks events
      ∧ (lost = 0 ∨ s.splitter = .done (.failed .workersGone)) := by
  induction h using Run.induction with
  | start decode =>
    refine ⟨0, ?_, Or.inl rfl⟩
    simp [underway, Pipeline.start, splitterHolds, workerHolds, decodedChunks, produced, answers,
      decodings]
  | @move events s seen s' hrun hmove hrun' ih =>
    obtain ⟨lost, heq, hlost⟩ := ih
    obtain ⟨lostNow, heqNow, hlostNow⟩ := hmove.chunks_eq
    refine ⟨lost + lostNow, ?_, ?_⟩
    · calc ((produced (events ++ seen) : List Chunk) : Multiset Chunk)
          = lost + underway s + decodedChunks events + (produced seen : List Chunk) := by
            rw [produced_append, ← Multiset.coe_add, heq]
        _ = lost + decodedChunks events + (underway s + (produced seen : List Chunk)) := by abel
        _ = lost + lostNow + underway s' + decodedChunks (events ++ seen) := by
            rw [heqNow, decodedChunks_append]
            abel
    · -- once refused, always refused: what was lost then stays excused
      rcases hlost with rfl | hrefused
      · rcases hlostNow with rfl | hrefused
        · exact Or.inl rfl
        · exact Or.inr hrefused
      · exact Or.inr (hmove.splitter_eq_of_refused hrefused)

/-- Workers decode chunks that were produced, and none of them twice. -/
theorem Run.decodedChunks_le (h : Run profile feed events s) :
    decodedChunks events ≤ ((produced events : List Chunk) : Multiset Chunk) := by
  obtain ⟨lost, hchunks, -⟩ := h.chunks_eq
  rw [hchunks]
  exact Multiset.le_add_left _ _

end Chunks

/-! ## Reports -/

/-- What a worker reports of a call of the decoder; of a crash, nothing. -/
def reportOf : Outcome StreamError DecodedChunk → Option DecodeResult
  | .ok decoded => some (.ok decoded)
  | .error e => some (.error e)
  | .crash _ => none

def reports (events : List Event) : Multiset DecodeResult :=
  ((decodings events).filterMap fun d => reportOf d.2 : List _)

/-- The report that a worker has in hand. -/
def workerReports : Worker → Multiset DecodeResult
  | .sending result => {result}
  | _ => 0

/-- The reports that the collector has not received. -/
def unreceived {σ : Type} (s : State σ) : Multiset DecodeResult :=
  s.results + (s.workers.map workerReports).sum

def indexOf : DecodeResult → Option Nat
  | .ok decoded => some decoded.index
  | .error _ => none

/-- The indices that were reported. -/
def indices (reports : Multiset DecodeResult) : Multiset Nat := reports.filterMap indexOf

/-- Why a collector stops at `e`: a call of the decoder has failed with it, or two calls have
reported one index. -/
inductive Faulty (reports : Multiset DecodeResult) : StreamError → Prop where
  | failed {e : StreamError} : .error e ∈ reports → Faulty reports e
  | doubled {i : Nat} : 1 < (indices reports).count i → Faulty reports (.duplicateChunk i)

/-- What has become of the reports. Those that were received make up what the collector holds,
unless it has met a failure, and then one of them tells why. -/
def Settled {σ : Type} (s : State σ) (reports : Multiset DecodeResult) : Prop :=
  match s.collecting with
  | .receiving collector | .drained collector =>
    ∃ came : List DecodedChunk, collector.Holds came
      ∧ reports = unreceived s + (came.map Except.ok : List DecodeResult)
  | .failed e | .stopped e => Faulty reports e

theorem reports_append (a b : List Event) : reports (a ++ b) = reports a + reports b := by
  unfold reports
  rw [decodings_append, List.filterMap_append, Multiset.coe_add]

theorem indices_add (a b : Multiset DecodeResult) : indices (a + b) = indices a + indices b :=
  Multiset.filterMap_add _ _ _

/-- A worker behind a call of the decoder holds what the call reports, and nothing behind a
crash. -/
theorem workerReports_after (outcome : Outcome StreamError DecodedChunk) :
    workerReports (workerAfter outcome) = ((reportOf outcome).toList : Multiset DecodeResult) := by
  cases outcome <;> rfl

/-- What other reports say takes nothing away from a fault. -/
theorem Faulty.add {a : Multiset DecodeResult} {e : StreamError} (h : Faulty a e)
    (b : Multiset DecodeResult) : Faulty (a + b) e := by
  cases h with
  | failed hmem => exact .failed (Multiset.mem_add.mpr (Or.inl hmem))
  | @doubled i hcount =>
    apply Faulty.doubled
    rw [indices_add, Multiset.count_add]
    omega

/-- A move that keeps the reports together keeps them settled. -/
theorem Settled.of_eq {σ : Type} {s s' : State σ} {old new : Multiset DecodeResult}
    (h : Settled s old) (hc : s'.collecting = s.collecting)
    (heq : unreceived s' = unreceived s + new) : Settled s' (old + new) := by
  unfold Settled at h ⊢
  rw [hc]
  cases hcollecting : s.collecting with
  -- a failure is for good
  | failed e | stopped e =>
    rw [hcollecting] at h
    exact Faulty.add h new
  -- what is new is on its way
  | receiving collector | drained collector =>
    rw [hcollecting] at h
    obtain ⟨came, hholds, hreports⟩ := h
    refine ⟨came, hholds, ?_⟩
    rw [hreports, heq]
    abel

/-- While the collector receives, it has been told of everything but what is still on its way, and
all of that was well. -/
theorem Settled.of_receiving {σ : Type} {s : State σ} {reports : Multiset DecodeResult}
    {collector : Collector} (h : Settled s reports) (hc : s.collecting = .receiving collector) :
    ∃ came : List DecodedChunk, collector.Holds came
      ∧ reports = unreceived s + (came.map Except.ok : List DecodeResult) := by
  unfold Settled at h
  rw [hc] at h
  exact h

/-- Behind a failure it makes no difference whether the queue is still open. -/
theorem settled_iff_of_failure {σ : Type} {s : State σ} {reports : Multiset DecodeResult}
    {e : StreamError} (hc : failure? s.collecting = some e) :
    Settled s reports ↔ Faulty reports e := by
  unfold Settled
  cases hcollecting : s.collecting with
  | receiving collector | drained collector =>
    rw [hcollecting] at hc
    cases hc
  | failed cause | stopped cause =>
    rw [hcollecting] at hc
    cases hc
    exact Iff.rfl

/-- An index that is refused has been reported twice. -/
theorem Faulty.of_push_error {collector : Collector} {came : List DecodedChunk}
    {chunk : DecodedChunk} {e : StreamError} (others : Multiset DecodeResult)
    (h : collector.Holds came) (hpush : collector.push chunk = .error e) :
    Faulty (Except.ok chunk ::ₘ others + (came.map Except.ok : List DecodeResult)) e := by
  obtain ⟨rfl, earlier, hmem, hindex⟩ := h.push_error hpush
  -- once among those that came, and once more now
  apply Faulty.doubled
  have hcame : chunk.index ∈ indices (came.map Except.ok : List DecodeResult) := by
    unfold indices
    rw [Multiset.mem_filterMap]
    exact ⟨.ok earlier, Multiset.mem_coe.mpr (List.mem_map_of_mem hmem), congrArg some hindex⟩
  have hone := Multiset.one_le_count_iff_mem.mpr hcame
  have hnow : indices (Except.ok chunk ::ₘ others) = chunk.index ::ₘ indices others :=
    Multiset.filterMap_cons_some indexOf (.ok chunk) others rfl
  rw [indices_add, Multiset.count_add, hnow, Multiset.count_cons_self]
  omega

/-- A move keeps the reports settled. A report can be lost only while a worker is at work and the
queue is closed; `hstopped` says that there is a failure then. -/
theorem Move.settled {σ : Type} [ChunkFeed σ] {capacity : Nat} {s s' : State σ} {seen : List Event}
    {old : Multiset DecodeResult} (h : Move capacity s seen s')
    (hstopped : ¬ s.collecting.isOpen → ¬ s.workers.all Worker.isDone → s.HasStopped)
    (hold : Settled s old) : Settled s' (old + reports seen) := by
  cases h with
  | fetched | ended | feedFailed | feedCrashed | refused | queued =>
    exact hold.of_eq rfl (add_zero _).symm
  | @took i chunk chunks hw hc =>
    refine hold.of_eq rfl ?_
    simp only [unreceived, sum_map_set_of_eq workerReports (b := .decoding chunk) hw rfl]
    exact (add_zero _).symm
  | retired hw =>
    refine hold.of_eq rfl ?_
    simp only [unreceived, sum_map_set_of_eq workerReports (b := .left) hw rfl]
    exact (add_zero _).symm
  | @decoded i chunk outcome hw =>
    have hsum := sum_map_set workerReports (b := workerAfter outcome) hw
    rw [workerReports_after] at hsum
    simp only [workerReports, add_zero] at hsum
    refine hold.of_eq rfl ?_
    have hnew : reports [.decoded chunk outcome] = (reportOf outcome).toList := by
      cases outcome <;> rfl
    rw [hnew]
    simp only [unreceived, hsum, add_assoc]
  | @delivered i result hw hc hroom =>
    have hsum := sum_map_set workerReports (b := .idle) hw
    simp only [workerReports, add_zero] at hsum
    refine hold.of_eq rfl ?_
    show _ = unreceived s + 0
    simp only [unreceived, ← hsum, ← Multiset.coe_add, Multiset.coe_singleton]
    abel
  | dropped hw hc =>
    -- the report is lost, but a stopped collector does not need it any more
    obtain ⟨e, he⟩ := hstopped hc (not_all_isDone hw rfl)
    have hfaulty := (settled_iff_of_failure he).mp hold
    refine (settled_iff_of_failure ?_).mpr (hfaulty.add _)
    exact he
  | @accepted chunk results collector next hc hr hpush =>
    obtain ⟨came, hholds, hreports⟩ := hold.of_receiving hc
    refine ⟨chunk :: came, hholds.push_ok hpush, ?_⟩
    show _ + 0 = _
    rw [hreports]
    simp only [unreceived, hr, List.map_cons, ← Multiset.cons_coe, ← Multiset.singleton_add]
    abel
  | @rejected chunk results collector e hc hr hpush =>
    obtain ⟨came, hholds, hreports⟩ := hold.of_receiving hc
    apply Faulty.add
    convert Faulty.of_push_error (unreceived { s with results }) hholds hpush using 1
    rw [hreports]
    simp only [unreceived, hr, ← Multiset.cons_coe, ← Multiset.singleton_add]
    abel
  | @failed results collector e hc hr =>
    obtain ⟨came, hholds, hreports⟩ := hold.of_receiving hc
    apply Faulty.add
    apply Faulty.failed
    rw [hreports]
    simp [unreceived, hr]
  | @closed e hc =>
    -- the collector tells the same reason, with its queue closed
    have hfaulty := (settled_iff_of_failure (congrArg failure? hc)).mp hold
    exact (settled_iff_of_failure rfl).mpr (hfaulty.add _)
  | drained hc hr hgone =>
    obtain ⟨came, hholds, hreports⟩ := hold.of_receiving hc
    refine ⟨came, hholds, ?_⟩
    show _ + 0 = _
    rw [hreports, add_zero]
    rfl

/-- **Reports are accounted for.** Induction on the moves. -/
theorem Run.settled {σ : Type} [ChunkFeed σ] {profile : Profile} {feed : σ} {events : List Event}
    {s : State σ} (h : Run profile feed events s) : Settled s (reports events) := by
  induction h using Run.induction with
  | start decode =>
    refine ⟨[], Collector.holds_empty, ?_⟩
    simp [unreceived, Pipeline.start, workerReports, reports, decodings]
  | @move events s seen s' hrun hmove hrun' ih =>
    rw [reports_append]
    exact hmove.settled hrun.hasStopped ih

end Pipeline

end MessageFraming
