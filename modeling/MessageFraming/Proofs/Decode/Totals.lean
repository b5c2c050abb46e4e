import Mathlib.Algebra.BigOperators.Group.List.Basic
import Mathlib.Algebra.GroupWithZero.Nat
import MessageFraming.Counters

/-!
# Sums of counters

Counters add up word by word, so their order makes no difference, and what a word of a sum says can
be told from the numbers: it is their total, modulo the size of a word.

* `AddCommMonoid Counters`: sums in any order.
* `Counters.toNat_count_sum`: the words of a sum as numbers.
-/

namespace MessageFraming

namespace Counters

instance : Zero Counters := ⟨zero⟩

theorem add_def (a b : Counters) : a + b = ⟨a.chunks + b.chunks, a.frames + b.frames,
    a.rawBytes + b.rawBytes, a.payloadBytes + b.payloadBytes⟩ := rfl

theorem zero_def : (0 : Counters) = ⟨0, 0, 0, 0⟩ := rfl

instance : AddCommMonoid Counters where
  add_assoc a b c := by simp only [add_def, UInt64.add_assoc]
  zero_add a := by simp only [add_def, zero_def, UInt64.zero_add]
  add_zero a := by simp only [add_def, zero_def, UInt64.add_zero]
  add_comm a b := by
    rw [add_def, add_def, UInt64.add_comm a.chunks, UInt64.add_comm a.frames,
      UInt64.add_comm a.rawBytes, UInt64.add_comm a.payloadBytes]
  nsmul := nsmulRec

/-- The words that counters are made of. -/
def counts : List (Counters → UInt64) := [chunks, frames, rawBytes, payloadBytes]

theorem count_zero {count : Counters → UInt64} (h : count ∈ counts) : count 0 = 0 := by
  simp only [counts, List.mem_cons, List.not_mem_nil, or_false] at h
  rcases h with rfl | rfl | rfl | rfl <;> rfl

/-- Each of the four counts is taken along by the sum, with wrap-around. -/
theorem count_add {count : Counters → UInt64} (h : count ∈ counts) (a b : Counters) :
    count (a + b) = count a + count b := by
  simp only [counts, List.mem_cons, List.not_mem_nil, or_false] at h
  rcases h with rfl | rfl | rfl | rfl <;> rfl

/-- **A word of a sum holds the total**, up to the size of a word. Induction on the summands. -/
theorem toNat_count_sum {count : Counters → UInt64} (h : count ∈ counts) (cs : List Counters) :
    (count cs.sum).toNat = (cs.map fun c => (count c).toNat).sum % UInt64.size := by
  induction cs with
  | nil =>
    rw [List.sum_nil, count_zero h]
    rfl
  | cons c cs ih =>
    rw [List.sum_cons, count_add h, UInt64.toNat_add, ih, List.map_cons, List.sum_cons]
    exact Nat.add_mod_mod _ _ _

/-- What is too much for a word is cut off. -/
example : (⟨.ofNat (UInt64.size - 1), 2, 3, 4⟩ : Counters) + ⟨1, 2, 3, 4⟩ = ⟨0, 4, 6, 8⟩ := by
  decide

end Counters

end MessageFraming
