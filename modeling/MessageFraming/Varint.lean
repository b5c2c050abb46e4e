import MessageFraming.Source.Gather
import MessageFraming.Frame.Error

/-!
# Varints

A length prefix is an unsigned 64-bit number in groups of seven bits, least significant group first;
every byte but the last has its high bit set. A word takes at most `Varint.maxLength` bytes, and of
the last of those only the lowest bit counts.

The reader accepts forms longer than needed, and tells three ends apart: no byte at all is the end
of the stream, some bytes without a last one are a truncated prefix, and a value past 64 bits is an
overflow.
-/

namespace MessageFraming

namespace Varint

/-- Most bytes that a 64-bit word takes. -/
def maxLength : Nat := 10

/-- The high bit, set on every byte but the last. -/
def continues : UInt8 := 0x80

/-- The shortest form of `value`. -/
def encode (value : UInt64) : Bytes :=
  if _h : value < 0x80 then [value.toUInt8]
  else (value.toUInt8 ||| continues) :: encode (value >>> 7)
termination_by value.toNat
decreasing_by
  have hle : 0x80 ≤ value.toNat := by
    simpa [UInt64.lt_iff_toNat_lt] using _h
  have hshift : (7 : UInt64).toNat % 64 = 7 := by decide
  rw [UInt64.toNat_shiftRight, hshift, Nat.shiftRight_eq_div_pow]
  omega

variable {σ : Type} [ByteSupply σ]

/-- How far left the group goes that has at most `groups` behind it. -/
def shiftOf (groups : Nat) : UInt64 := (7 * (maxLength - 1 - groups)).toUInt64

/-- Reads on with at most `groups` bytes to come; `value` holds the groups read so far. -/
def readGroups (value : UInt64) : Nat → σ → Outcome FrameError (Option UInt64) × σ
  | 0, s => (.error .varintOverflow, s)
  | groups + 1, s =>
    match pullByte s with
    | (.error e, rest) => (.error (.io .readLengthPrefix e), rest)
    | (.crash message, rest) => (.crash message, rest)
    | (.ok none, rest) =>
      if groups + 1 = maxLength then (.ok none, rest) else (.error .truncatedPrefix, rest)
    | (.ok (some b), rest) =>
      if b < continues then
        -- the tenth byte has room for one bit
        if groups = 0 ∧ 1 < b then (.error .varintOverflow, rest)
        else (.ok (some (value ||| (b.toUInt64 <<< shiftOf groups))), rest)
      else readGroups (value ||| ((b &&& 0x7f).toUInt64 <<< shiftOf groups)) groups rest

/-- Reads one varint; none at the end of the stream. -/
def read (s : σ) : Outcome FrameError (Option UInt64) × σ := readGroups 0 maxLength s

/-! ### What a prefix costs -/

/-- The groups of a number are taken from the supply, and nothing is put back. -/
theorem readGroups_remaining_le (value : UInt64) (groups : Nat) (s : σ) :
    ByteSupply.remaining (readGroups value groups s).2 ≤ ByteSupply.remaining s := by
  induction groups generalizing value s with
  | zero => simp [readGroups]
  | succ groups ih =>
    have hbyte := pullByte_remaining_le s
    unfold readGroups
    split <;> rename_i h <;> simp only [h] at hbyte
    · exact hbyte
    · exact hbyte
    · split <;> exact hbyte
    · split
      · split <;> exact hbyte
      · exact Nat.le_trans (ih _ _) hbyte

/-- A value that was read took at least one byte. -/
theorem readGroups_remaining_lt {value v : UInt64} {groups : Nat} {s rest : σ}
    (h : readGroups value groups s = (.ok (some v), rest)) :
    ByteSupply.remaining rest < ByteSupply.remaining s := by
  cases groups with
  | zero => simp [readGroups] at h
  | succ groups =>
    unfold readGroups at h
    split at h
    · simp at h
    · simp at h
    · split at h <;> simp at h
    · rename_i b rest' hb
      have hlt := pullByte_remaining_lt hb
      split at h
      · split at h
        · simp at h
        · simp only [Prod.mk.injEq] at h
          rw [← h.2]
          exact hlt
      · -- the first byte is gone, and later rounds only take more
        have hle := readGroups_remaining_le
          (value ||| (b &&& 0x7f).toUInt64 <<< shiftOf groups) groups rest'
        simp only [h] at hle
        omega

theorem read_remaining_lt {v : UInt64} {s rest : σ} (h : read s = (.ok (some v), rest)) :
    ByteSupply.remaining rest < ByteSupply.remaining s :=
  readGroups_remaining_lt h

end Varint

end MessageFraming
