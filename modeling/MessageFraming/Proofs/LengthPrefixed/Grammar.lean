import MessageFraming.LengthPrefixed.Format
import MessageFraming.Proofs.Cursor.Answers
import MessageFraming.Proofs.Varint.Grammar

/-!
# The grammar of length-prefixed frames

A reader of frames is a parser of prefixes that takes as many bytes behind each of them as it
declares. Here it is said without a source and without a buffer.

* `LengthPrefixed.parse`: the answer to one read of these bytes, with the bytes that it leaves.
* `LengthPrefixed.Parser`: reading on, as a cursor.
* `LengthPrefixed.parse_cases`: the same by what the bytes begin with.
* `LengthPrefixed.Wire`: a byte string that is made of whole frames. The parser takes it apart
  again, and nothing else it reads to a clean end (`wire_of_answers`).
* `LengthPrefixed.Wire.encode_length_le`: a wire is never shorter than the encoding of its frames,
  and it is this encoding just where all its prefixes are minimal (`Wire.encode_eq_iff`).
-/

namespace MessageFraming

namespace LengthPrefixed

/-! ## One frame -/

/-- What the next bytes are as a frame of at most `limit` bytes, and what is left behind it. The
limit is looked at before the payload is. -/
def parse (limit : Nat) (bytes : Bytes) : FrameResult × Bytes :=
  match Varint.parse bytes with
  | (.ok none, behind) => (.ok none, behind)
  | (.ok (some declared), behind) =>
    if limit < declared then (.error (.frameTooLarge declared limit), behind)
    else if behind.length < declared then (.error (.truncated declared), [])
    else (.ok (some (behind.take declared)), behind.drop declared)
  | (.error e, behind) => (.error e, behind)
  | (.crash message, behind) => (.crash message, behind)

/-- What is left to parse. -/
structure Parser where
  bytes : Bytes
  limit : Nat

instance : Cursor Parser where
  read p := ((parse p.limit p.bytes).1, { p with bytes := (parse p.limit p.bytes).2 })

theorem Parser.read_eq (p : Parser) :
    Cursor.read p = ((parse p.limit p.bytes).1, { p with bytes := (parse p.limit p.bytes).2 }) :=
  rfl

@[simp] theorem parse_nil (limit : Nat) : parse limit [] = (.ok none, []) := rfl

/-- What is read behind a prefix. -/
theorem parse_declared {bytes behind : Bytes} {declared : Nat} (limit : Nat)
    (h : Varint.parse bytes = (.ok (some declared), behind)) :
    parse limit bytes =
      if limit < declared then (.error (.frameTooLarge declared limit), behind)
      else if behind.length < declared then (.error (.truncated declared), [])
      else (.ok (some (behind.take declared)), behind.drop declared) := by
  rw [parse, h]

/-- A prefix that is no number decides by itself. -/
theorem parse_malformed {bytes behind : Bytes} {e : FrameError} (limit : Nat)
    (h : Varint.parse bytes = (.error e, behind)) : parse limit bytes = (.error e, behind) := by
  rw [parse, h]

/-- What is read behind a form is its value, whether the form is minimal or not. -/
theorem parse_form {form : Bytes} (hform : Varint.Form form) (limit : Nat) (behind : Bytes) :
    parse limit (form ++ behind) =
      if limit < Varint.value form then
        (.error (.frameTooLarge (Varint.value form) limit), behind)
      else if behind.length < Varint.value form then
        (.error (.truncated (Varint.value form)), [])
      else (.ok (some (behind.take (Varint.value form))), behind.drop (Varint.value form)) :=
  parse_declared limit (hform.parse behind)

/-- A payload is accepted behind any form of its length. -/
theorem parse_frame {limit : Nat} {form payload : Bytes} (hform : Varint.Form form)
    (hvalue : Varint.value form = payload.length) (hlimit : payload.length ≤ limit)
    (behind : Bytes) :
    parse limit (form ++ payload ++ behind) = (.ok (some payload), behind) := by
  rw [List.append_assoc, parse_form hform, hvalue, if_neg (Nat.not_lt.mpr hlimit),
    if_neg (by simp), List.take_left, List.drop_left]

/-- A frame that is parsed is a form of its length with the payload behind it. -/
theorem frame_of_parse {limit : Nat} {bytes behind frame : Bytes}
    (h : parse limit bytes = (.ok (some frame), behind)) :
    ∃ form, Varint.Form form ∧ Varint.value form = frame.length ∧ frame.length ≤ limit
      ∧ bytes = form ++ frame ++ behind := by
  unfold parse at h
  split at h
  · cases h
  · rename_i declared later hvarint
    obtain ⟨form, hform, hvalue, rfl⟩ := Varint.form_of_parse hvarint
    split at h
    · cases h
    split at h
    · cases h
    · rename_i hlimit hlen
      cases h
      -- the payload is whole, since the shorter case was refused
      have htake : (later.take declared).length = declared := by
        rw [List.length_take, Nat.min_eq_left (Nat.not_lt.mp hlen)]
      refine ⟨form, hform, by rw [htake, hvalue], by rw [htake]; exact Nat.not_lt.mp hlimit, ?_⟩
      rw [List.append_assoc, List.take_append_drop]
  · cases h
  · cases h

/-- Only without input is there an end. -/
theorem nil_of_parse {limit : Nat} {bytes behind : Bytes}
    (h : parse limit bytes = (.ok none, behind)) : bytes = [] := by
  unfold parse at h
  split at h
  · rename_i hvarint
    exact Varint.nil_of_parse hvarint
  · split at h
    · cases h
    split at h <;> cases h
  · cases h
  · cases h

/-- What a parser does, by what is left: nothing, a form, or a malformed prefix. -/
theorem parse_cases (limit : Nat) (left : Bytes) :
    (left = [] ∧ parse limit left = (.ok none, []))
      ∨ (∃ form behind, Varint.Form form ∧ left = form ++ behind
        ∧ parse limit left =
          if limit < Varint.value form then
            (.error (.frameTooLarge (Varint.value form) limit), behind)
          else if behind.length < Varint.value form then
            (.error (.truncated (Varint.value form)), [])
          else (.ok (some (behind.take (Varint.value form))), behind.drop (Varint.value form)))
      ∨ ∃ looked behind e, Varint.Malformed looked behind e ∧ looked.length ≤ 10
        ∧ left = looked ++ behind ∧ parse limit left = (.error e, behind) := by
  rcases Varint.form_or_malformed left with rfl | ⟨form, behind, hform, rfl⟩
    | ⟨looked, behind, e, he, rfl⟩
  · exact Or.inl ⟨rfl, rfl⟩
  · exact Or.inr (Or.inl ⟨form, behind, hform, rfl, parse_form hform limit behind⟩)
  · exact Or.inr (Or.inr ⟨looked, behind, e, he, he.length_le, rfl, parse_malformed limit he.parse⟩)

/-- No frame is longer than the limit, wherever the parser stands. -/
theorem Parser.length_le_of_mem_answers {p : Parser} {n : Nat} {frame : Bytes}
    (h : .ok (some frame) ∈ Cursor.answers n p) : frame.length ≤ p.limit := by
  induction n generalizing p with
  | zero => cases h
  | succ n ih =>
    rw [Cursor.answers_succ p.read_eq] at h
    rcases List.mem_cons.mp h with hframe | hlater
    · obtain ⟨form, -, -, hlimit, -⟩ := frame_of_parse (Prod.ext hframe.symm rfl)
      exact hlimit
    · have hle := ih hlater
      exact hle

/-! ## Whole frames -/

/-- The byte string is frames one behind the other, each behind its prefix. -/
inductive Wire : List Bytes → List Bytes → Bytes → Prop where
  | nil : Wire [] [] []
  | cons {form frame bytes : Bytes} {forms frames : List Bytes} :
      Varint.Form form → Varint.value form = frame.length → Wire forms frames bytes →
      Wire (form :: forms) (frame :: frames) (form ++ frame ++ bytes)

/-- A parser reads the frames of a wire, and then what stands behind it. -/
theorem Wire.answers {forms frames : List Bytes} {bytes : Bytes} (h : Wire forms frames bytes)
    {limit : Nat} (hlimit : ∀ frame ∈ frames, frame.length ≤ limit) (behind : Bytes) (n : Nat) :
    Cursor.answers (frames.length + n) (⟨bytes ++ behind, limit⟩ : Parser)
      = frames.map (fun frame => .ok (some frame))
        ++ Cursor.answers n (⟨behind, limit⟩ : Parser) := by
  induction h with
  | nil => rw [List.length_nil, Nat.zero_add, List.nil_append, List.map_nil, List.nil_append]
  | @cons form frame bytes forms frames hform hvalue _ ih =>
    obtain ⟨hframe, hframes⟩ := List.forall_mem_cons.mp hlimit
    have hread : Cursor.read (⟨form ++ frame ++ (bytes ++ behind), limit⟩ : Parser)
        = (.ok (some frame), ⟨bytes ++ behind, limit⟩) := by
      rw [Parser.read_eq, parse_frame hform hvalue hframe]
    rw [List.append_assoc, List.length_cons, Nat.succ_add, Cursor.answers_succ hread, ih hframes]
    rfl

/-- What a parser reads to a clean end is a wire. Induction on the frames. -/
theorem wire_of_answers {limit : Nat} {bytes : Bytes} {frames : List Bytes}
    (h : Cursor.answers (frames.length + 1) (⟨bytes, limit⟩ : Parser)
      = frames.map (fun frame => .ok (some frame)) ++ [.ok none]) :
    (∃ forms, Wire forms frames bytes) ∧ ∀ frame ∈ frames, frame.length ≤ limit := by
  induction frames generalizing bytes with
  | nil =>
    obtain ⟨hend, -⟩ := List.cons_eq_cons.mp h
    have hparse : (parse limit bytes).1 = .ok none := hend
    rw [nil_of_parse (Prod.ext hparse rfl)]
    exact ⟨⟨[], .nil⟩, by simp⟩
  | cons frame frames ih =>
    obtain ⟨hframe, hlater⟩ := List.cons_eq_cons.mp h
    have hparse : (parse limit bytes).1 = .ok (some frame) := hframe
    -- each answer gives back the form it was read from, minimal or not
    obtain ⟨form, hform, hvalue, hlimit, hbytes⟩ := frame_of_parse (Prod.ext hparse rfl)
    obtain ⟨⟨forms, hforms⟩, hframes⟩ := ih hlater
    refine ⟨⟨form :: forms, ?_⟩, List.forall_mem_cons.mpr ⟨hlimit, hframes⟩⟩
    rw [hbytes]
    exact .cons hform hvalue hforms

/-! ## Encoding again -/

@[simp] theorem encode_nil : format.encode [] = [] := rfl

theorem encode_cons (payload : Bytes) (payloads : List Bytes) :
    format.encode (payload :: payloads)
      = format.head () payload ++ payload ++ format.encode payloads := rfl

/-- What is written in front of a payload declares its length. -/
theorem value_head {payload : Bytes} (h : payload.length < UInt64.size) :
    Varint.value (format.head () payload) = payload.length := by
  show Varint.value (Varint.encode payload.length.toUInt64) = _
  rw [Varint.value_encode, UInt64.toNat_ofNat_of_lt' h]

/-- The head of a frame is the shortest form of a number. -/
theorem form_head (payload : Bytes) : Varint.Form (format.head () payload) :=
  Varint.form_encode _

/-- Payloads that fit a word are encoded as a wire. -/
theorem wire_encode {payloads : List Bytes}
    (h : ∀ payload ∈ payloads, payload.length < UInt64.size) :
    Wire (payloads.map (format.head ())) payloads (format.encode payloads) := by
  induction payloads with
  | nil => exact .nil
  | cons payload payloads ih =>
    obtain ⟨hpayload, hpayloads⟩ := List.forall_mem_cons.mp h
    exact .cons (form_head payload) (value_head hpayload) (ih hpayloads)

/-- No prefix of a frame is shorter than the one that is written. -/
theorem length_head_le {form frame : Bytes} (hform : Varint.Form form)
    (hvalue : Varint.value form = frame.length) :
    (format.head () frame).length ≤ form.length := by
  have hword : frame.length < UInt64.size := hvalue ▸ hform.value_lt
  refine Varint.length_encode_le_of_value hform.complete ?_
  rw [hvalue, UInt64.toNat_ofNat_of_lt' hword]

/-- **Encoding the frames of a wire again makes it no longer.** -/
theorem Wire.encode_length_le {forms frames : List Bytes} {bytes : Bytes}
    (h : Wire forms frames bytes) : (format.encode frames).length ≤ bytes.length := by
  induction h with
  | nil => exact Nat.le_refl 0
  | @cons form frame bytes forms frames hform hvalue _ ih =>
    have hhead := length_head_le hform hvalue
    simp only [encode_cons, List.length_append]
    omega

/-- **A wire is the encoding of its frames if and only if all its prefixes are minimal.** -/
theorem Wire.encode_eq_iff {forms frames : List Bytes} {bytes : Bytes}
    (h : Wire forms frames bytes) :
    format.encode frames = bytes ↔ ∀ form ∈ forms, Varint.Minimal form := by
  induction h with
  | nil => exact ⟨fun _ => by simp, fun _ => rfl⟩
  | @cons form frame bytes forms frames hform hvalue hwire ih =>
    have hhead : format.head () frame = form ↔ Varint.Minimal form := by
      rw [Varint.minimal_iff_encode hform, hvalue]
      exact eq_comm
    rw [List.forall_mem_cons, ← hhead, ← ih, encode_cons]
    constructor
    · intro heq
      -- neither part gets longer, so both keep their lengths
      have hlen := congrArg List.length heq
      have hle := length_head_le hform hvalue
      have hle' := hwire.encode_length_le
      simp only [List.length_append] at hlen
      obtain ⟨hfront, hlater⟩ := List.append_inj heq (by simp only [List.length_append]; omega)
      exact ⟨(List.append_inj hfront (by omega)).1, hlater⟩
    · rintro ⟨hform, hlater⟩
      rw [hform, hlater]

end LengthPrefixed

end MessageFraming
