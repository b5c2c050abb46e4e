import MessageFraming.Proofs.Source.Supply
import MessageFraming.Proofs.Varint.Grammar

/-!
# Reading varints follows the grammar

`Varint.read` pulls one byte at a time and gathers the groups in a word. Over any supply that only
delivers it answers what `Varint.parse` says of the bytes to come, and takes what `parse` takes
(`Varint.read_delivers`). No bit is lost in the word: nine groups have 63 bits, and of the tenth the
reader accepts one.
-/

namespace MessageFraming

namespace Varint

/-! ## Groups in a word -/

/-- Nine groups fit a word. -/
theorem fits_of_pos {front : Bytes} {groups : Nat} (b : UInt8)
    (hlen : front.length + (groups + 1) = maxLength) (hpos : 0 < groups) :
    value (front ++ [b]) < UInt64.size := by
  have hten : maxLength = 10 := rfl
  refine Nat.lt_of_lt_of_le (value_lt (front ++ [b])) ?_
  show 2 ^ (7 * (front ++ [b]).length) ≤ 2 ^ 64
  apply Nat.pow_le_pow_right (by decide)
  rw [List.length_append, List.length_singleton]
  omega

/-- Of a tenth group only the lowest bit does. -/
theorem fits_iff_of_full {front : Bytes} {b : UInt8} (hlen : front.length + 1 = maxLength)
    (hb : b < continues) : value (front ++ [b]) < UInt64.size ↔ ¬ 1 < b := by
  have hnine : front.length = 9 := Nat.succ.inj hlen
  have hfront := value_lt front
  have hone : 1 < b ↔ 1 < b.toNat := UInt8.lt_iff_toNat_lt
  rw [lt_continues_iff] at hb
  rw [hone, value_concat, Nat.mod_eq_of_lt hb]
  rw [hnine] at hfront ⊢
  have hsize : UInt64.size = 2 * 2 ^ (7 * 9) := rfl
  omega

/-- The shift for a group is seven bits for each group before it. -/
theorem toNat_shiftOf {front : Bytes} {groups : Nat}
    (hlen : front.length + (groups + 1) = maxLength) :
    (shiftOf groups).toNat % 64 = 7 * front.length := by
  have hten : maxLength = 10 := rfl
  have hbehind : maxLength - 1 - groups = front.length := by omega
  have hword : 7 * front.length < UInt64.size := by
    show 7 * front.length < 2 ^ 64
    omega
  rw [shiftOf, hbehind, UInt64.toNat_ofNat_of_lt' hword]
  omega

/-- One more group goes left of those that the word holds, and no bit of it is lost. -/
theorem toNat_or_group {acc : UInt64} {groups : Nat} {front : Bytes} {b group : UInt8}
    (hlen : front.length + (groups + 1) = maxLength) (hacc : acc.toNat = value front)
    (hgroup : group.toNat = b.toNat % 128) (hfit : value (front ++ [b]) < UInt64.size) :
    (acc ||| (group.toUInt64 <<< shiftOf groups)).toNat = value (front ++ [b]) := by
  have hfront := value_lt front
  rw [value_concat] at hfit ⊢
  have hshifted : b.toNat % 128 * 2 ^ (7 * front.length) < 2 ^ 64 := by
    rw [Nat.mul_comm]
    exact Nat.lt_of_le_of_lt (Nat.le_add_left _ _) hfit
  rw [UInt64.toNat_or, UInt64.toNat_shiftLeft, UInt8.toNat_toUInt64, toNat_shiftOf hlen, hgroup,
    hacc, Nat.shiftLeft_eq, Nat.mod_eq_of_lt hshifted, Nat.or_comm, Nat.mul_comm,
    ← Nat.two_pow_add_eq_or_of_lt hfront, Nat.add_comm]

/-! ## Reading -/

section

variable {σ : Type} [ByteSupply σ] [DeliveringSupply σ]

open DeliveringSupply

/-- The loop of `read_delivers`, with the bytes behind it in `front` and their number in `acc`. At
the tenth byte the word is full, and nothing is said of it. -/
theorem readGroups_delivers (front : Bytes) {groups : Nat} {acc : UInt64} {s : σ} {bytes : Bytes}
    (hlen : front.length + groups = maxLength) (hfront : ∀ c ∈ front, continues ≤ c)
    (hacc : 0 < groups → acc.toNat = value front) (h : Delivers s bytes) :
    (readGroups acc groups s).1.map (Option.map UInt64.toNat) = (parse (front ++ bytes)).1
      ∧ Delivers (readGroups acc groups s).2 (parse (front ++ bytes)).2 := by
  induction groups generalizing front acc s bytes with
  | zero =>
    rw [parse_overflow hfront hlen]
    exact ⟨rfl, h⟩
  | succ groups ih =>
    have hacc := hacc (Nat.succ_pos groups)
    obtain ⟨rest, hbyte, hrest⟩ := pullByte_delivers h
    rw [readGroups, hbyte]
    cases bytes with
    | nil =>
      -- the end of input: of the stream, if no byte came before
      rw [List.append_nil]
      by_cases hnil : front = []
      · subst hnil
        have hfull : groups + 1 = maxLength := by simpa using hlen
        simp only [List.head?_nil, if_pos hfull]
        exact ⟨rfl, hrest⟩
      · have hpos := List.length_pos_iff.mpr hnil
        have hpart : ¬ groups + 1 = maxLength := by omega
        rw [parse_truncated hfront hnil (by omega)]
        simp only [List.head?_nil, if_neg hpart]
        exact ⟨rfl, hrest⟩
    | cons b behind =>
      simp only [List.head?_cons, List.tail_cons] at hrest ⊢
      by_cases hb : b < continues
      · -- the last byte
        rw [parse_last hfront hb (by omega), if_pos hb]
        by_cases hover : groups = 0 ∧ 1 < b
        · obtain ⟨rfl, hone⟩ := hover
          rw [if_pos ⟨rfl, hone⟩, if_neg fun hfit => (fits_iff_of_full hlen hb).mp hfit hone]
          exact ⟨rfl, hrest⟩
        · have hfit : value (front ++ [b]) < UInt64.size := by
            rcases Nat.eq_zero_or_pos groups with rfl | hpos
            · exact (fits_iff_of_full hlen hb).mpr fun hone => hover ⟨rfl, hone⟩
            · exact fits_of_pos b hlen hpos
          have hgroup : b.toNat = b.toNat % 128 :=
            (Nat.mod_eq_of_lt ((lt_continues_iff b).mp hb)).symm
          rw [if_neg hover, if_pos hfit]
          refine ⟨?_, hrest⟩
          show Outcome.ok (some _) = _
          rw [toNat_or_group hlen hacc hgroup hfit]
      · -- one of those in front of it
        rw [if_neg hb]
        have hcontinues := not_lt_continues.mp hb
        have hlen' : (front ++ [b]).length + groups = maxLength := by
          rw [List.length_append, List.length_singleton]
          omega
        have hfront' : ∀ c ∈ front ++ [b], continues ≤ c := by
          intro c hmem
          rcases List.mem_append.mp hmem with hmem | hmem
          · exact hfront c hmem
          · exact List.mem_singleton.mp hmem ▸ hcontinues
        have hstep := ih (front ++ [b]) hlen' hfront' (fun hpos =>
          toNat_or_group hlen hacc (toNat_and_group b) (fits_of_pos b hlen hpos)) hrest
        rw [List.append_assoc, List.singleton_append] at hstep
        exact hstep

/-- **A varint is read as the grammar says.** The answer is that of `parse` on the bytes to come,
and what `parse` leaves is what the supply will still deliver. -/
theorem read_delivers {s : σ} {bytes : Bytes} (h : Delivers s bytes) :
    (read s).1.map (Option.map UInt64.toNat) = (parse bytes).1
      ∧ Delivers (read s).2 (parse bytes).2 :=
  readGroups_delivers [] rfl (by simp) (fun _ => rfl) h

end

end Varint

end MessageFraming
