import Mathlib.Order.Bounds.Basic
import MessageFraming.Proofs.Decode.Reassembly

/-!
# Chunks pushed in any order

A collector is pushed whatever comes, and goes on after a refusal. All that can be asked of it then
depends on the indices that it has accepted, and above all on the least index among those it has
not, which is where its stream has its first gap.

* `Collector.pushed`, `Collector.accepted`: what a row of pushes comes to, and the chunks of it that
  were not refused.
* `Collector.holds_pushed`: the invariant of `Reassembly` along such a row.
* `Collector.Holds.push_cases`, `Collector.Holds.isLeast_next`, `Collector.Holds.length_pending`,
  `Collector.Holds.finish_congr`: the answers of a collector, told from the accepted chunks.
* `Collector.reassembles_any_order`: all of this for any row of pushes.
-/

namespace MessageFraming

namespace Collector

/-! ## Rows of pushes -/

/-- The collector after a push, whether it takes the chunk or refuses it. -/
def offer (c : Collector) (chunk : DecodedChunk) : Collector :=
  match c.push chunk with
  | .ok c' => c'
  | .error _ => c

/-- Those of the chunks, pushed in this order, that are not refused. -/
def acceptedBy : Collector → List DecodedChunk → List DecodedChunk
  | _, [] => []
  | c, chunk :: chunks =>
    match c.push chunk with
    | .ok c' => chunk :: acceptedBy c' chunks
    | .error _ => acceptedBy c chunks

/-- A new collector after these pushes. -/
def pushed (chunks : List DecodedChunk) : Collector := chunks.foldl offer empty

def accepted (chunks : List DecodedChunk) : List DecodedChunk := acceptedBy empty chunks

theorem offer_of_ok {c c' : Collector} {chunk : DecodedChunk} (h : c.push chunk = .ok c') :
    c.offer chunk = c' := by
  unfold offer
  rw [h]

theorem offer_of_error {c : Collector} {chunk : DecodedChunk} {e : StreamError}
    (h : c.push chunk = .error e) : c.offer chunk = c := by
  unfold offer
  rw [h]

/-- The chunk that comes last is offered to what the others have made of the collector. -/
theorem pushed_concat (chunks : List DecodedChunk) (chunk : DecodedChunk) :
    pushed (chunks ++ [chunk]) = (pushed chunks).offer chunk :=
  List.foldl_concat offer empty chunk chunks

/-- Refused chunks leave no trace: without them the collector would be the same. -/
theorem foldl_offer_acceptedBy (c : Collector) (chunks : List DecodedChunk) :
    (acceptedBy c chunks).foldl offer c = chunks.foldl offer c := by
  fun_induction acceptedBy c chunks with
  | case1 c => rfl
  | case2 c chunk chunks c' hpush ih => rw [List.foldl_cons, List.foldl_cons, offer_of_ok hpush, ih]
  | case3 c chunk chunks e hpush ih => rw [List.foldl_cons, offer_of_error hpush, ih]

/-- A collector accepts no more chunks than it is offered. -/
theorem length_acceptedBy_le (c : Collector) (chunks : List DecodedChunk) :
    (acceptedBy c chunks).length ≤ chunks.length := by
  fun_induction acceptedBy c chunks with
  | case1 c => exact Nat.le_refl _
  | case2 c first chunks c' hpush ih =>
    rw [List.length_cons, List.length_cons]
    exact Nat.succ_le_succ ih
  | case3 c first chunks e hpush ih =>
    rw [List.length_cons]
    exact Nat.le_succ_of_le ih

/-! ## The invariant along a row -/

section

variable {came came' : List DecodedChunk} {c c' : Collector}

/-- The order of arrival does not show in a collector. -/
theorem Holds.perm (h : Holds came c) (hperm : came.Perm came') : Holds came' c := by
  obtain ⟨flushed, hflushed⟩ := h.flushed
  exact ⟨⟨flushed, { hflushed with split := hperm.symm.trans hflushed.split }⟩, h.gap⟩

/-- Induction on the pushes. -/
theorem Holds.foldl_offer (h : Holds came c) (chunks : List DecodedChunk) :
    Holds (came ++ acceptedBy c chunks) (chunks.foldl offer c) := by
  fun_induction acceptedBy c chunks generalizing came with
  | case1 c =>
    rw [List.append_nil]
    exact h
  | case2 c chunk chunks c' hpush ih =>
    rw [List.foldl_cons, offer_of_ok hpush]
    exact (ih (h.push_ok hpush)).perm List.perm_middle.symm
  | case3 c chunk chunks e hpush ih =>
    rw [List.foldl_cons, offer_of_error hpush]
    exact ih h

theorem holds_pushed (chunks : List DecodedChunk) : Holds (accepted chunks) (pushed chunks) :=
  holds_empty.foldl_offer chunks

/-! ## The answers of a collector -/

/-- A push is refused just where a chunk with this index has come. -/
theorem Holds.push_cases (h : Holds came c) (chunk : DecodedChunk) :
    (∃ earlier ∈ came, earlier.index = chunk.index)
        ∧ c.push chunk = .error (.duplicateChunk chunk.index)
      ∨ (¬ ∃ earlier ∈ came, earlier.index = chunk.index) ∧ ∃ c', c.push chunk = .ok c' := by
  obtain ⟨flushed, hflushed⟩ := h.flushed
  rw [hflushed.came_iff]
  unfold push
  split
  · rename_i hseen
    exact Or.inl ⟨hseen, rfl⟩
  · rename_i hnew
    exact Or.inr ⟨hnew, _, rfl⟩

/-- The next index is the least one that has not come. -/
theorem Holds.isLeast_next (h : Holds came c) :
    IsLeast {i | i ∉ came.map (·.index)} c.next := by
  constructor
  · show c.next ∉ came.map (·.index)
    rw [List.mem_map]
    exact h.next_not_mem
  · -- everything below it is in the stream
    intro i hi
    obtain ⟨flushed, hflushed⟩ := h.flushed
    refine Nat.le_of_not_lt fun hlt => hi (List.mem_map.mpr ?_)
    exact (hflushed.came_iff i).mpr (Or.inl hlt)

/-- The chunks that came fill all indices below the next one. -/
theorem Holds.next_le_length (h : Holds came c) : c.next ≤ came.length := by
  obtain ⟨flushed, hflushed⟩ := h.flushed
  rw [hflushed.next_eq, hflushed.split.length_eq, List.length_append]
  exact Nat.le_add_right _ _

/-- Pending are the chunks that came from behind the gap. -/
theorem Holds.length_pending (h : Holds came c) :
    c.pending.length = came.countP (c.next < ·.index) := by
  obtain ⟨flushed, hflushed⟩ := h.flushed
  -- what is in the stream has an index below the next one
  have hfront : flushed.countP (c.next < ·.index) = 0 := by
    rw [List.countP_eq_zero]
    intro chunk hmem
    have hindex : chunk.index ∈ List.range flushed.length := by
      rw [← hflushed.inOrder]
      exact List.mem_map_of_mem hmem
    have := List.mem_range.mp hindex
    have := hflushed.next_eq
    simp only [decide_eq_true_eq]
    omega
  -- what is pending has one above it
  have hbehind : c.pending.countP (c.next < ·.index) = c.pending.length := by
    rw [List.countP_eq_length]
    intro chunk hmem
    exact decide_eq_true (h.gap chunk hmem)
  rw [hflushed.split.countP_eq, List.countP_append, hfront, hbehind, Nat.zero_add]

/-- Without a gap there is a stream. -/
theorem Holds.finish_of_range (h : Holds came c) {n : Nat}
    (hindices : (came.map (·.index)).Perm (List.range n)) :
    ∃ inOrder, came.Perm inOrder ∧ InOrder inOrder ∧ c.finish = .ok (.ofChunks inOrder) := by
  obtain ⟨flushed, hflushed⟩ := h.flushed
  have hsplit := hflushed.split
  rw [h.pending_eq_nil hindices, List.append_nil] at hsplit
  exact ⟨flushed, hsplit, hflushed.inOrder,
    (h.finish_ok_iff _).mpr ⟨flushed, hsplit, hflushed.inOrder, rfl⟩⟩

/-- With a gap there is none. -/
theorem Holds.finish_of_gap (h : Holds came c)
    (hgap : ¬ ∃ n, (came.map (·.index)).Perm (List.range n)) :
    c.finish = .error (.missingChunk c.next) := by
  cases hfinish : c.finish with
  | error e => rw [h.finish_error hfinish]
  | ok stream =>
    obtain ⟨inOrder, hperm, horder, -⟩ := (h.finish_ok_iff stream).mp hfinish
    refine absurd ⟨inOrder.length, ?_⟩ hgap
    rw [← horder]
    exact hperm.map _

/-- Collectors that got the same chunks finish alike. -/
theorem Holds.finish_congr (h : Holds came c) (h' : Holds came' c') (hperm : came.Perm came') :
    c.finish = c'.finish := by
  by_cases hindices : ∃ n, (came.map (·.index)).Perm (List.range n)
  · obtain ⟨n, hn⟩ := hindices
    obtain ⟨inOrder, hsplit, horder, hfinish⟩ := h.finish_of_range hn
    rw [hfinish, (h'.finish_ok_iff _).mpr ⟨inOrder, hperm.symm.trans hsplit, horder, rfl⟩]
  · have hindices' : ¬ ∃ n, (came'.map (·.index)).Perm (List.range n) := by
      rintro ⟨n, hn⟩
      exact hindices ⟨n, (hperm.map _).trans hn⟩
    have hnext : c.next = c'.next := h.isLeast_next.unique (h'.perm hperm.symm).isLeast_next
    rw [h.finish_of_gap hindices, h'.finish_of_gap hindices', hnext]

end

/-- What a collector has made of a row of pushes, with `gap` the least index that no accepted chunk
has. -/
structure Reassembled (chunks : List DecodedChunk) (gap : Nat) : Prop where
  isLeast_gap : IsLeast {i | i ∉ (accepted chunks).map (·.index)} gap
  gap_le : gap ≤ chunks.length
  /-- A push is refused if and only if an accepted chunk has its index, and then the collector stays
  as it was. -/
  push_cases (chunk : DecodedChunk) :
    (∃ earlier ∈ accepted chunks, earlier.index = chunk.index)
        ∧ (pushed chunks).push chunk = .error (.duplicateChunk chunk.index)
        ∧ pushed (chunks ++ [chunk]) = pushed chunks
      ∨ (¬ ∃ earlier ∈ accepted chunks, earlier.index = chunk.index)
        ∧ (pushed chunks).push chunk = .ok (pushed (chunks ++ [chunk]))
  /-- Without the refused chunks it would be the same. -/
  pushed_accepted : pushed (accepted chunks) = pushed chunks
  /-- The pending chunks are the accepted ones behind the gap. -/
  length_pending : (pushed chunks).pending.length = (accepted chunks).countP (gap < ·.index)
  /-- It finishes with a stream if the accepted indices are `0`, `1`, `2` and so on up to some
  number, in any order. The stream has the frames of the accepted chunks in the order of their
  indices, and their counters add up to its own. -/
  finish_ok : (∃ n, ((accepted chunks).map (·.index)).Perm (List.range n)) →
    ∃ inOrder, (accepted chunks).Perm inOrder ∧ InOrder inOrder
      ∧ (pushed chunks).finish = .ok ⟨inOrder.flatMap (·.frames),
        ((accepted chunks).map (·.counters)).sum⟩
  /-- They do so as numbers, as far as the sums fit their words. -/
  counters_sum {count : Counters → UInt64} (hcount : count ∈ Counters.counts) :
    (count ((accepted chunks).map (·.counters)).sum).toNat
      = ((accepted chunks).map fun chunk => (count chunk.counters).toNat).sum % UInt64.size
  /-- Otherwise the gap is what it reports. -/
  finish_error : (¬ ∃ n, ((accepted chunks).map (·.index)).Perm (List.range n)) →
    (pushed chunks).finish = .error (.missingChunk gap)
  /-- None of this depends on the order in which the chunks came. -/
  finish_eq {others : List DecodedChunk} (hsame : (accepted others).Perm (accepted chunks)) :
    (pushed others).finish = (pushed chunks).finish

/-- **Reassembly in any order.** After any row of pushes, all that a collector answers can be told
from the chunks that it has accepted, and the least index among those that it has not is where its
stream has its first gap. -/
theorem reassembles_any_order (chunks : List DecodedChunk) : ∃ gap, Reassembled chunks gap := by
  have h := holds_pushed chunks
  exact ⟨(pushed chunks).next, {
    isLeast_gap := h.isLeast_next
    gap_le := h.next_le_length.trans (length_acceptedBy_le empty chunks)
    push_cases := by
      intro chunk
      rw [pushed_concat]
      rcases h.push_cases chunk with ⟨hseen, hrefused⟩ | ⟨hnew, c', htaken⟩
      · exact Or.inl ⟨hseen, hrefused, offer_of_error hrefused⟩
      · refine Or.inr ⟨hnew, ?_⟩
        rw [offer_of_ok htaken]
        exact htaken
    pushed_accepted := foldl_offer_acceptedBy empty chunks
    length_pending := h.length_pending
    finish_ok := by
      rintro ⟨n, hn⟩
      obtain ⟨inOrder, hsplit, horder, hfinish⟩ := h.finish_of_range hn
      refine ⟨inOrder, hsplit, horder, ?_⟩
      rw [hfinish, DecodedStream.ofChunks, (hsplit.map _).sum_eq]
    counters_sum := by
      intro count hcount
      rw [Counters.toNat_count_sum hcount, List.map_map]
      rfl
    finish_error := h.finish_of_gap
    finish_eq := fun hsame => (holds_pushed _).finish_congr h hsame }⟩

/-- The chunk with index `2` comes first and has to wait for that with index `1`. -/
def earlyChunk : DecodedChunk := ⟨2, [[99]], ⟨1, 1, 2, 1⟩⟩

def firstChunk : DecodedChunk := ⟨0, [[97], []], ⟨1, 2, 3, 1⟩⟩

def missedChunk : DecodedChunk := ⟨1, [[98]], ⟨1, 1, 1, 1⟩⟩

theorem reassembles_any_order_earlyChunk :
    (pushed [earlyChunk, firstChunk, firstChunk]).push earlyChunk = .error (.duplicateChunk 2)
      ∧ (pushed [earlyChunk, firstChunk, firstChunk]).pending.length = 1
      ∧ (pushed [earlyChunk, firstChunk, firstChunk]).finish = .error (.missingChunk 1)
      ∧ (pushed [earlyChunk, firstChunk, missedChunk]).finish
        = .ok ⟨[[97], [], [98], [99]], ⟨3, 4, 6, 3⟩⟩
      ∧ (pushed [missedChunk, earlyChunk, firstChunk]).finish
        = .ok ⟨[[97], [], [98], [99]], ⟨3, 4, 6, 3⟩⟩ := by
  have hholed : accepted [earlyChunk, firstChunk, firstChunk] = [earlyChunk, firstChunk] := by
    decide +kernel
  have hwhole : accepted [earlyChunk, firstChunk, missedChunk]
      = [earlyChunk, firstChunk, missedChunk] := by decide +kernel
  have hothers : (accepted [missedChunk, earlyChunk, firstChunk]).Perm
      (accepted [earlyChunk, firstChunk, missedChunk]) := by decide +kernel
  have hgap : IsLeast {i | i ∉ [2, 0]} 1 := by
    refine ⟨by decide, fun i hi => Nat.pos_of_ne_zero ?_⟩
    rintro rfl
    exact hi (by decide)
  -- once with a hole at index one, once without
  obtain ⟨gap, hmade⟩ := reassembles_any_order [earlyChunk, firstChunk, firstChunk]
  obtain ⟨_, hmade'⟩ := reassembles_any_order [earlyChunk, firstChunk, missedChunk]
  have hleast := hmade.isLeast_gap
  have hpending := hmade.length_pending
  have hmissing := hmade.finish_error
  have hstream := hmade'.finish_ok
  rw [hholed] at hleast hpending hmissing
  have hone : gap = 1 := hleast.unique hgap
  rw [hone] at hpending hmissing
  refine ⟨?_, hpending, hmissing ?_, ?_⟩
  · rcases hmade.push_cases earlyChunk with ⟨-, hrefused, -⟩ | ⟨hnew, -⟩
    · exact hrefused
    · rw [hholed] at hnew
      exact absurd ⟨earlyChunk, by decide, rfl⟩ hnew
  · rintro ⟨n, hn⟩
    obtain rfl : n = 2 := by simpa using hn.length_eq.symm
    exact absurd hn (by decide)
  · rw [hmade'.finish_eq hothers, and_self]
    rw [hwhole] at hstream
    obtain ⟨inOrder, hperm, horder, hfinish⟩ := hstream ⟨3, by decide⟩
    have heq : inOrder = [firstChunk, missedChunk, earlyChunk] :=
      horder.eq_of_perm rfl (hperm.symm.trans (by decide))
    rw [hfinish, heq]
    rfl

end Collector

end MessageFraming
