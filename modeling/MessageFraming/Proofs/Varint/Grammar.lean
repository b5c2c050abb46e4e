import Mathlib.Algebra.Group.Nat.Defs
import MessageFraming.Varint

/-!
# The grammar of varints

What the next bytes are, as a length prefix, is said here without a reader and without words:
numbers are natural numbers, and a prefix is a list of bytes.

* `Varint.value`: the number that groups of seven bits stand for, however many there are.
* `Varint.Complete`, `Varint.Form`: bytes of which just the last has a clear high bit; and those
  that a reader accepts, of at most ten bytes and 64 bits.
* `Varint.Malformed`: what a reader takes of any other bytes before it gives up. Bytes begin with
  one or the other (`form_or_malformed`).
* `Varint.parse`: the first prefix of a byte string, with what stands behind it. It accepts a form,
  whatever follows (`Form.parse`), and nothing else (`form_of_parse`).
* `Varint.Minimal`: the shortest forms. They are what the encoder writes (`minimal_iff_encode`).
-/

namespace MessageFraming

namespace Varint

/-- The number that the low seven bits of each byte make up, least significant group first. -/
def value : Bytes → Nat
  | [] => 0
  | b :: bytes => b.toNat % 128 + 128 * value bytes

/-- Every byte but the last says that others follow. -/
inductive Complete : Bytes → Prop where
  | last {b : UInt8} : b < continues → Complete [b]
  | more {b : UInt8} {bytes : Bytes} : continues ≤ b → Complete bytes → Complete (b :: bytes)

/-- The bytes of a prefix that can be read. -/
structure Form (bytes : Bytes) : Prop where
  complete : Complete bytes
  length_le : bytes.length ≤ maxLength
  value_lt : value bytes < UInt64.size

/-- The bytes that a reader looks at before it gives up, with those that it leaves: too many without
a last one, too many bits, or the end of input in front of the last byte. -/
inductive Malformed : Bytes → Bytes → FrameError → Prop where
  | endless {looked : Bytes} (behind : Bytes) : (∀ c ∈ looked, continues ≤ c) →
      looked.length = maxLength → Malformed looked behind .varintOverflow
  | tooLarge {looked : Bytes} (behind : Bytes) : Complete looked → looked.length ≤ maxLength →
      UInt64.size ≤ value looked → Malformed looked behind .varintOverflow
  | cutOff {looked : Bytes} : (∀ c ∈ looked, continues ≤ c) → looked ≠ [] →
      looked.length < maxLength → Malformed looked [] .truncatedPrefix

/-- No other form of the same number is shorter. -/
def Minimal (bytes : Bytes) : Prop :=
  Form bytes ∧ ∀ other, Form other → value other = value bytes → bytes.length ≤ other.length

/-- The bytes in front of the first one that says that no others follow. -/
def continuing (bytes : Bytes) : Bytes := bytes.takeWhile fun b => decide (continues ≤ b)

/-- What the next bytes are as a prefix, and what they leave behind it. No more than `maxLength`
bytes are looked at. -/
def parse (bytes : Bytes) : Outcome FrameError (Option Nat) × Bytes :=
  if bytes = [] then (.ok none, [])
  else if maxLength ≤ (continuing bytes).length then
    (.error .varintOverflow, bytes.drop maxLength)
  else
    match bytes.drop (continuing bytes).length with
    | [] => (.error .truncatedPrefix, [])
    | b :: behind =>
      if value (continuing bytes ++ [b]) < UInt64.size then
        (.ok (some (value (continuing bytes ++ [b]))), behind)
      else (.error .varintOverflow, behind)

/-! ## Single bytes -/

theorem lt_continues_iff (b : UInt8) : b < continues ↔ b.toNat < 128 := UInt8.lt_iff_toNat_lt

theorem continues_le_iff (b : UInt8) : continues ≤ b ↔ 128 ≤ b.toNat := UInt8.le_iff_toNat_le

theorem not_lt_continues {b : UInt8} : ¬ b < continues ↔ continues ≤ b := by
  rw [lt_continues_iff, continues_le_iff, Nat.not_lt]

/-- Setting the high bit keeps the group. -/
theorem toNat_or_continues (b : UInt8) : (b ||| continues).toNat = b.toNat % 128 + 128 := by
  have hall : ∀ i : Fin 256, i.val ||| 128 = i.val % 128 + 128 := by decide +kernel
  rw [UInt8.toNat_or]
  exact hall ⟨b.toNat, b.toNat_lt⟩

/-- Clearing it does as well. -/
theorem toNat_and_group (b : UInt8) : (b &&& 0x7f).toNat = b.toNat % 128 := by
  rw [UInt8.toNat_and]
  exact Nat.and_two_pow_sub_one_eq_mod b.toNat 7

/-! ## Numbers -/

/-- Bytes further behind weigh seven bits more for each byte in front of them. -/
theorem value_append (front back : Bytes) :
    value (front ++ back) = value front + 2 ^ (7 * front.length) * value back := by
  induction front with
  | nil => simp [value]
  | cons b front ih =>
    have hpow : 2 ^ (7 * (front.length + 1)) = 128 * 2 ^ (7 * front.length) := by
      rw [Nat.mul_succ, Nat.pow_add, Nat.mul_comm]
    rw [List.cons_append, value, value, ih, List.length_cons, hpow, Nat.mul_assoc]
    omega

/-- `n` groups have `7 * n` bits. -/
theorem value_lt (bytes : Bytes) : value bytes < 2 ^ (7 * bytes.length) := by
  induction bytes with
  | nil => simp [value]
  | cons b bytes ih =>
    rw [value, List.length_cons, Nat.mul_add, Nat.pow_add]
    omega

/-- So does a last byte. -/
theorem value_concat (front : Bytes) (b : UInt8) :
    value (front ++ [b]) = value front + 2 ^ (7 * front.length) * (b.toNat % 128) := by
  rw [value_append]
  rfl

/-! ## Complete prefixes -/

theorem Complete.ne_nil {bytes : Bytes} (h : Complete bytes) : bytes ≠ [] := by
  cases h <;> simp

/-- A complete prefix is bytes that others follow, and a last one. -/
theorem complete_iff {bytes : Bytes} :
    Complete bytes
      ↔ ∃ front b, bytes = front ++ [b] ∧ (∀ c ∈ front, continues ≤ c) ∧ b < continues := by
  constructor
  · intro h
    induction h with
    | @last b hb => exact ⟨[], b, rfl, by simp, hb⟩
    | @more b bytes hb _ ih =>
      obtain ⟨front, c, rfl, hfront, hc⟩ := ih
      exact ⟨b :: front, c, rfl, List.forall_mem_cons.mpr ⟨hb, hfront⟩, hc⟩
  · rintro ⟨front, b, rfl, hfront, hb⟩
    induction front with
    | nil => exact .last hb
    | cons c front ih =>
      obtain ⟨hc, hfront⟩ := List.forall_mem_cons.mp hfront
      exact .more hc (ih hfront)

/-- Prefixes of one length are told apart by their numbers. -/
theorem Complete.eq_of_value_eq {bytes other : Bytes} (h : Complete bytes) (hother : Complete other)
    (hlen : bytes.length = other.length) (hvalue : value bytes = value other) : bytes = other := by
  induction h generalizing other with
  | @last b hb =>
    cases hother with
    | @last c hc =>
      rw [lt_continues_iff] at hb hc
      simp only [value] at hvalue
      have hbc : b.toNat = c.toNat := by omega
      rw [UInt8.toNat_inj.mp hbc]
    | @more c other hc hother =>
      -- a prefix that goes on is longer than one byte
      simp only [List.length_cons, List.length_nil] at hlen
      exact absurd (List.length_eq_zero_iff.mp (by omega)) hother.ne_nil
  | @more b bytes hb h ih =>
    cases hother with
    | @last c hc =>
      simp only [List.length_cons, List.length_nil] at hlen
      exact absurd (List.length_eq_zero_iff.mp (by omega)) h.ne_nil
    | @more c other hc hother =>
      rw [continues_le_iff] at hb hc
      have hb' := b.toNat_lt
      have hc' := c.toNat_lt
      simp only [value] at hvalue
      have hbc : b.toNat = c.toNat := by omega
      rw [UInt8.toNat_inj.mp hbc, ih hother (by simpa using hlen) (by omega)]

/-! ## Parsing -/

/-- A front of bytes that all continue goes on behind it. -/
theorem continuing_append_of_all {front : Bytes} (h : ∀ c ∈ front, continues ≤ c) (bytes : Bytes) :
    continuing (front ++ bytes) = front ++ continuing bytes := by
  unfold continuing
  rw [List.takeWhile_append_of_pos]
  intro c hmem
  exact decide_eq_true (h c hmem)

/-- All of them continue. -/
theorem continuing_all (bytes : Bytes) : ∀ c ∈ continuing bytes, continues ≤ c := by
  intro c hmem
  have hall := List.all_takeWhile (l := bytes) (p := fun b => decide (continues ≤ b))
  exact of_decide_eq_true (List.all_eq_true.mp hall c hmem)

@[simp] theorem parse_nil : parse [] = (.ok none, []) := rfl

/-- Ten bytes and none of them the last. -/
theorem parse_overflow {front : Bytes} (hfront : ∀ c ∈ front, continues ≤ c)
    (hlen : front.length = maxLength) (behind : Bytes) :
    parse (front ++ behind) = (.error .varintOverflow, behind) := by
  have hne : front ++ behind ≠ [] := by
    intro hnil
    rw [(List.append_eq_nil_iff.mp hnil).1] at hlen
    cases hlen
  rw [parse, if_neg hne, continuing_append_of_all hfront, if_pos, ← hlen, List.drop_left]
  rw [List.length_append, hlen]
  omega

/-- The end of input in front of the last byte. -/
theorem parse_truncated {front : Bytes} (hfront : ∀ c ∈ front, continues ≤ c) (hne : front ≠ [])
    (hlen : front.length < maxLength) : parse front = (.error .truncatedPrefix, []) := by
  have hall : continuing front = front := by
    simpa [continuing] using continuing_append_of_all hfront []
  rw [parse, if_neg hne, hall, if_neg (by omega), List.drop_length]

/-- A last byte among the first ten. -/
theorem parse_last {front : Bytes} {b : UInt8} (hfront : ∀ c ∈ front, continues ≤ c)
    (hb : b < continues) (hlen : front.length < maxLength) (behind : Bytes) :
    parse (front ++ b :: behind) =
      if value (front ++ [b]) < UInt64.size then (.ok (some (value (front ++ [b]))), behind)
      else (.error .varintOverflow, behind) := by
  have hstop : continuing (b :: behind) = [] :=
    List.takeWhile_cons_of_neg (by simpa [not_lt_continues] using hb)
  rw [parse, if_neg (by simp), continuing_append_of_all hfront, hstop, List.append_nil,
    if_neg (by omega), List.drop_left]

/-- A form is accepted, whatever stands behind it. -/
theorem Form.parse {bytes : Bytes} (h : Form bytes) (behind : Bytes) :
    parse (bytes ++ behind) = (.ok (some (value bytes)), behind) := by
  obtain ⟨front, b, rfl, hfront, hb⟩ := complete_iff.mp h.complete
  have hlen := h.length_le
  rw [List.length_append, List.length_singleton] at hlen
  rw [List.append_assoc, List.singleton_append, parse_last hfront hb (by omega),
    if_pos h.value_lt]

/-- The front of a form is no form, and is not taken for one: none of its bytes is a last one. -/
theorem Form.parse_take {bytes : Bytes} (h : Form bytes) {j : Nat} (hpos : 0 < j)
    (hlt : j < bytes.length) : Varint.parse (bytes.take j) = (.error .truncatedPrefix, []) := by
  obtain ⟨front, b, rfl, hfront, -⟩ := complete_iff.mp h.complete
  have hle := h.length_le
  rw [List.length_append, List.length_singleton] at hlt hle
  have hlen : (front.take j).length = j := by
    rw [List.length_take]
    omega
  rw [List.take_append_of_le_length (by omega)]
  -- a proper front has continuing bytes only, and fewer than the longest form
  apply parse_truncated
  · intro c hmem
    exact hfront c (List.mem_of_mem_take hmem)
  · exact List.length_pos_iff.mp (by omega)
  · omega

/-- A malformed number is refused within ten bytes. -/
theorem Malformed.length_le {looked behind : Bytes} {e : FrameError}
    (h : Malformed looked behind e) : looked.length ≤ maxLength := by
  cases h with
  | endless _ _ hlen => exact Nat.le_of_eq hlen
  | tooLarge _ _ hlen _ => exact hlen
  | cutOff _ _ hlen => exact Nat.le_of_lt hlen

/-- A malformed prefix is refused, with just the bytes taken that were looked at. -/
theorem Malformed.parse {looked behind : Bytes} {e : FrameError} (h : Malformed looked behind e) :
    parse (looked ++ behind) = (.error e, behind) := by
  cases h with
  | endless _ hall hlen => exact parse_overflow hall hlen behind
  | tooLarge _ hcomplete hlen hvalue =>
    obtain ⟨front, b, rfl, hfront, hb⟩ := complete_iff.mp hcomplete
    rw [List.length_append, List.length_singleton] at hlen
    rw [List.append_assoc, List.singleton_append, parse_last hfront hb hlen,
      if_neg (Nat.not_lt.mpr hvalue)]
  | cutOff hall hne hlen =>
    rw [List.append_nil]
    exact parse_truncated hall hne hlen

/-- **A byte string begins with a form or with a malformed prefix**, if it begins with anything. -/
theorem form_or_malformed (bytes : Bytes) :
    bytes = []
      ∨ (∃ form behind, Form form ∧ bytes = form ++ behind)
      ∨ ∃ looked behind e, Malformed looked behind e ∧ bytes = looked ++ behind := by
  have hall := continuing_all bytes
  have hcut : continuing bytes ++ bytes.dropWhile (fun b => decide (continues ≤ b)) = bytes :=
    List.takeWhile_append_dropWhile
  by_cases hne : bytes = []
  · exact Or.inl hne
  refine Or.inr ?_
  by_cases hlong : maxLength ≤ (continuing bytes).length
  · -- ten bytes that others follow
    have hfront : ∀ c ∈ (continuing bytes).take maxLength, continues ≤ c :=
      fun c hmem => hall c (List.mem_of_mem_take hmem)
    have hlen : ((continuing bytes).take maxLength).length = maxLength := by
      rw [List.length_take, Nat.min_eq_left hlong]
    refine Or.inr ⟨_, (continuing bytes).drop maxLength
      ++ bytes.dropWhile (fun b => decide (continues ≤ b)), _, .endless _ hfront hlen, ?_⟩
    rw [← List.append_assoc, List.take_append_drop, hcut]
  have hshort := Nat.not_le.mp hlong
  cases hdrop : bytes.dropWhile fun b => decide (continues ≤ b) with
  | nil =>
    -- the input ends before a last byte comes
    rw [hdrop, List.append_nil] at hcut
    rw [hcut] at hall hshort
    exact Or.inr ⟨bytes, [], _, .cutOff hall hne hshort, (List.append_nil bytes).symm⟩
  | cons b behind =>
    -- `b` is the last byte, and the number decides
    have hb : b < continues := by
      have hhead := List.head?_dropWhile_not (fun b => decide (continues ≤ b)) bytes
      rw [hdrop] at hhead
      simpa using hhead
    have hcomplete : Complete (continuing bytes ++ [b]) :=
      complete_iff.mpr ⟨_, b, rfl, hall, hb⟩
    have hlen : (continuing bytes ++ [b]).length ≤ maxLength := by
      rw [List.length_append, List.length_singleton]
      exact hshort
    have hbytes : bytes = continuing bytes ++ [b] ++ behind := by
      rw [List.append_assoc, List.singleton_append, ← hdrop, hcut]
    rcases Nat.lt_or_ge (value (continuing bytes ++ [b])) UInt64.size with hlt | hge
    · exact Or.inl ⟨_, behind, ⟨hcomplete, hlen, hlt⟩, hbytes⟩
    · exact Or.inr ⟨_, behind, _, .tooLarge behind hcomplete hlen hge, hbytes⟩

/-- Nothing but a form is accepted. -/
theorem form_of_parse {bytes behind : Bytes} {n : Nat} (h : parse bytes = (.ok (some n), behind)) :
    ∃ form, Form form ∧ value form = n ∧ bytes = form ++ behind := by
  rcases form_or_malformed bytes with rfl | ⟨form, later, hform, rfl⟩ | ⟨looked, later, e, he, rfl⟩
  · cases h
  · rw [hform.parse] at h
    cases h
    exact ⟨form, hform, rfl, rfl⟩
  · rw [he.parse] at h
    cases h

/-- Only without input is there no prefix at all. -/
theorem nil_of_parse {bytes behind : Bytes} (h : parse bytes = (.ok none, behind)) :
    bytes = [] := by
  rcases form_or_malformed bytes with rfl | ⟨form, later, hform, rfl⟩ | ⟨looked, later, e, he, rfl⟩
  · rfl
  · rw [hform.parse] at h
    cases h
  · rw [he.parse] at h
    cases h

/-! ## Shortest forms -/

/-- An encoding has its end, and only its last byte is one. -/
theorem complete_encode (v : UInt64) : Complete (encode v) := by
  fun_induction encode v with
  | case1 v hlt =>
    refine .last ((lt_continues_iff _).mpr ?_)
    have hv : v.toNat < 128 := UInt64.lt_iff_toNat_lt.mp hlt
    rw [UInt64.toNat_toUInt8]
    omega
  | case2 v hge ih =>
    refine .more ((continues_le_iff _).mpr ?_) ih
    rw [toNat_or_continues]
    omega

/-- A group is shifted out. -/
theorem toNat_shiftRight_group (v : UInt64) : (v >>> 7).toNat = v.toNat / 128 := by
  have hshift : (7 : UInt64).toNat % 64 = 7 := by decide
  rw [UInt64.toNat_shiftRight, hshift, Nat.shiftRight_eq_div_pow]

@[simp] theorem value_encode (v : UInt64) : value (encode v) = v.toNat := by
  fun_induction encode v with
  | case1 v hlt =>
    have hv : v.toNat < 128 := UInt64.lt_iff_toNat_lt.mp hlt
    rw [value, value, UInt64.toNat_toUInt8]
    omega
  | case2 v hge ih =>
    rw [value, ih, toNat_or_continues, UInt64.toNat_toUInt8, toNat_shiftRight_group]
    omega

/-- A number of `k` groups takes at most `k` bytes. -/
theorem length_encode_le_of_lt {v : UInt64} {k : Nat} (hk : 0 < k) (h : v.toNat < 2 ^ (7 * k)) :
    (encode v).length ≤ k := by
  fun_induction encode v generalizing k with
  | case1 v hlt => exact hk
  | case2 v hge ih =>
    obtain ⟨k, rfl⟩ := Nat.exists_eq_succ_of_ne_zero (Nat.ne_of_gt hk)
    have hv : ¬ v.toNat < 128 := fun hlt => hge (UInt64.lt_iff_toNat_lt.mpr hlt)
    rw [Nat.mul_succ, Nat.pow_add] at h
    -- a number past the first group needs a second one
    have hpos : 0 < k := by
      refine Nat.pos_of_ne_zero fun hzero => ?_
      subst hzero
      omega
    refine Nat.succ_le_succ (ih hpos ?_)
    rw [toNat_shiftRight_group]
    omega

/-- Ten groups of seven bits are enough for any word. -/
theorem length_encode_le (v : UInt64) : (encode v).length ≤ maxLength := by
  refine length_encode_le_of_lt (by decide) (Nat.lt_trans v.toNat_lt ?_)
  decide

/-- An encoding is a form of a number. -/
theorem form_encode (v : UInt64) : Form (encode v) :=
  ⟨complete_encode v, length_encode_le v, by rw [value_encode]; exact v.toNat_lt⟩

/-- The encoder writes no more bytes than any other prefix of the same number has. -/
theorem length_encode_le_of_value {bytes : Bytes} (h : Complete bytes) {v : UInt64}
    (hvalue : value bytes = v.toNat) : (encode v).length ≤ bytes.length := by
  refine length_encode_le_of_lt (List.length_pos_iff.mpr h.ne_nil) ?_
  rw [← hvalue]
  exact value_lt bytes

/-- **The shortest forms are those that the encoder writes.** -/
theorem minimal_iff_encode {bytes : Bytes} (h : Form bytes) :
    Minimal bytes ↔ bytes = encode (value bytes).toUInt64 := by
  have hvalue : ((value bytes).toUInt64).toNat = value bytes :=
    UInt64.toNat_ofNat_of_lt' h.value_lt
  -- the encoding of the value is a rival that is never longer
  have hle := length_encode_le_of_value h.complete hvalue.symm
  constructor
  · intro hmin
    have hge := hmin.2 _ (form_encode (value bytes).toUInt64) (by rw [value_encode, hvalue])
    refine h.complete.eq_of_value_eq (complete_encode _) (Nat.le_antisymm hge hle) ?_
    rw [value_encode, hvalue]
  · intro heq
    refine ⟨h, fun other hother hsame => ?_⟩
    rw [heq]
    exact length_encode_le_of_value hother.complete (hsame.trans hvalue.symm)

end Varint

end MessageFraming
