import MessageFraming.LengthPrefixed.Reader
import MessageFraming.Proofs.Cursor.Restart
import MessageFraming.Proofs.LengthPrefixed.Grammar
import MessageFraming.Proofs.Varint.Streams

/-!
# Readers of length-prefixed frames follow the grammar

`LengthPrefixed.Reader` reads a prefix byte by byte and a payload in pieces, both through a buffer.
It answers what the parser answers, and it leaves what the parser leaves: also behind an error,
where the next read takes whatever comes for a prefix.

* `LengthPrefixed.framing`: which bytes the parser decides, whatever stands behind them
  (`parse_append_of_decided`).
* `Reader.readPayload_sights`: what a read does behind the prefix, of which `Varint.read_sights`
  tells. Both together follow the framing, whatever the source does (`Reader.reads`).
* `Reader.read_delivers`: so one read of bytes that come is what the parser says of them.
* `Reader.answers_delivers`: any number of reads, by `Cursor.Simulates`.
* `Reader.refines_grammar`: what follows for hostile input.
-/

namespace MessageFraming

namespace LengthPrefixed

/-! ## The framing of the parser -/

/-- Answers that are given only where the bytes come to an end, each with the step that a reader is
at by then. -/
inductive Undecided : FrameResult → FrameError.Step → Prop where
  | nothing : Undecided (.ok none) .readLengthPrefix
  | header : Undecided (.error .truncatedPrefix) .readLengthPrefix
  | payload (declared : Nat) : Undecided (.error (.truncated declared)) .readPayload

/-- No error of the grammar is a failure of the source. -/
theorem cause_parse (limit : Nat) (bytes : Bytes) : Cursor.cause (parse limit bytes).1 = none := by
  rcases parse_cases limit bytes with ⟨-, hparse⟩ | ⟨form, behind, -, -, hparse⟩
    | ⟨looked, behind, e, he, -, -, hparse⟩ <;> rw [hparse]
  · rfl
  · split
    · rfl
    · split <;> rfl
  · cases he <;> rfl

/-- A frame is decided by the bytes that the parser needs for it. -/
def framing (limit : Nat) : Framing where
  whole bytes answer := parse limit bytes = (answer, []) ∧ ∀ step, ¬ Undecided answer step
  part bytes step atEnd := parse limit bytes = (atEnd, []) ∧ Undecided atEnd step
  skipsEmpty := false
  ne_nil_of_whole := by
    rintro bytes answer ⟨hparse, hdecided⟩ rfl
    cases hparse
    exact hdecided _ .nothing
  cause_of_whole := by
    rintro bytes answer ⟨hparse, -⟩
    rw [← cause_parse limit bytes, hparse]
  cause_of_part := by
    rintro bytes step answer ⟨hparse, -⟩
    rw [← cause_parse limit bytes, hparse]

/-- What is decided is the answer whatever stands behind it. -/
theorem parse_append_of_decided {limit : Nat} {taken : Bytes} {answer : FrameResult}
    (h : parse limit taken = (answer, [])) (hdecided : ∀ step, ¬ Undecided answer step)
    (later : Bytes) : parse limit (taken ++ later) = (answer, later) := by
  rcases parse_cases limit taken with ⟨rfl, hparse⟩ | ⟨form, behind, hform, rfl, hparse⟩
    | ⟨looked, behind, e, he, -, rfl, hparse⟩
  · cases hparse.symm.trans h
    exact absurd .nothing (hdecided _)
  · rw [hparse] at h
    split at h
    · -- too large, which is known without the payload
      rename_i hlarge
      cases h
      rw [List.append_nil, parse_form hform, if_pos hlarge]
    · rename_i hlimit
      split at h
      · cases h
        exact absurd (.payload _) (hdecided _)
      · rename_i hlong
        obtain ⟨hanswer, hnone⟩ := Prod.mk.inj h
        have hlen : Varint.value form = behind.length := by
          have hle := List.drop_eq_nil_iff.mp hnone
          omega
        rw [hlen, List.take_length] at hanswer
        rw [hlen] at hlimit
        rw [← hanswer]
        exact parse_frame hform hlen (Nat.not_lt.mp hlimit) later
  · cases hparse.symm.trans h
    rw [List.append_nil]
    cases he with
    | endless _ hall hlen =>
      exact parse_malformed limit (Varint.Malformed.endless later hall hlen).parse
    | tooLarge _ hcomplete hlen hvalue =>
      exact parse_malformed limit (Varint.Malformed.tooLarge later hcomplete hlen hvalue).parse
    | cutOff => exact absurd .header (hdecided _)

namespace Reader

/-! ## One read -/

/-- Once the length is read, the limit decides whether the payload is asked for. -/
theorem read_declared {r : Reader} {input : BufferedSource} {declared : UInt64}
    (h : Varint.read r.input = (.ok (some declared), input)) :
    r.read =
      if r.limit < declared.toNat then
        (.error (.frameTooLarge declared.toNat r.limit), { r with input })
      else ({ r with input } : Reader).readPayload declared.toNat := by
  rw [read, h]

/-- Behind a prefix a reader takes the payload, or what there is of it and the stop. -/
theorem readPayload_sights (r : Reader) (length : Nat) :
    (∃ payload rest, r.readPayload length = (.ok (some payload), rest) ∧ payload.length = length
        ∧ rest.limit = r.limit ∧ r.input.sights = Sight.ofBytes payload ++ rest.input.sights)
      ∨ ∃ payload how behind rest, r.readPayload length
            = ((how.mapError (.io .readPayload)).bind fun _ => .error (.truncated length), rest)
          ∧ payload.length < length ∧ rest.limit = r.limit ∧ rest.input = .ofSource behind
          ∧ Passes r.input.sights (Sight.ofBytes payload ++ [.stop how behind]) behind.sights := by
  rcases gather_sights length r.input with ⟨payload, input, hgather, hlength, hsights⟩
    | ⟨payload, how, behind, hgather, hlength, hpasses⟩
  · refine Or.inl ⟨payload, { r with input, peak := max r.peak payload.length }, ?_, hlength, rfl,
      hsights⟩
    simp only [readPayload, hgather, if_neg (Nat.not_lt.mpr (Nat.le_of_eq hlength.symm))]
  · refine Or.inr ⟨payload, how, behind,
      { r with input := .ofSource behind, peak := max r.peak payload.length }, ?_, hlength, rfl,
      rfl, hpasses⟩
    -- a failure is passed on, while an orderly end is a truncation
    cases how with
    | ok _ => simp only [readPayload, hgather, if_pos hlength]; rfl
    | error _ | crash _ => simp only [readPayload, hgather]; rfl

/-- Together with the prefix in front of it, that is what the parser says. -/
theorem readPayload_reads {r : Reader} {s : BufferedSource} {form : Bytes}
    (hform : Varint.Form form) (hlimit : ¬ r.limit < Varint.value form)
    (hsights : s.sights = Sight.ofBytes form ++ r.input.sights) :
    (framing r.limit).Reads s (r.readPayload (Varint.value form)).1
        (r.readPayload (Varint.value form)).2.input
      ∧ (r.readPayload (Varint.value form)).2.limit = r.limit := by
  rcases r.readPayload_sights (Varint.value form) with
    ⟨payload, rest, hpayload, hlength, hrest, hlater⟩
    | ⟨payload, how, behind, rest, hpayload, hlength, hrest, hinput, hpasses⟩
  · have hparse := parse_frame hform hlength.symm (hlength ▸ Nat.not_lt.mp hlimit) []
    rw [List.append_nil] at hparse
    rw [hpayload]
    refine ⟨.whole ⟨hparse, nofun⟩ ?_, hrest⟩
    rw [hsights, hlater, Sight.ofBytes_append, List.append_assoc]
  · have hparse := parse_form hform r.limit payload
    rw [if_neg hlimit, if_pos hlength] at hparse
    rw [hpayload, hinput]
    exact ⟨.part ⟨hparse, .payload _⟩ (hpasses.behind_bytes hsights), hrest⟩

/-- **One read follows the framing.** -/
theorem reads (r : Reader) :
    (framing r.limit).Reads r.input r.read.1 r.read.2.input ∧ r.read.2.limit = r.limit := by
  rcases Varint.read_sights r.input with ⟨taken, answer, input, hread, hparse, hanswer, hsights⟩
    | ⟨taken, atEnd, how, behind, hread, hparse, hatEnd, hpasses⟩
  · rcases hanswer with rfl | ⟨declared, rfl⟩
    · rw [read, hread]
      have hdecided : ∀ step, ¬ Undecided (.error .varintOverflow) step := by
        intro step h
        cases h
      exact ⟨.whole ⟨parse_malformed _ hparse, hdecided⟩ hsights, rfl⟩
    · rw [read_declared hread]
      by_cases hlimit : r.limit < declared.toNat
      · rw [if_pos hlimit]
        refine ⟨.whole ⟨?_, fun step h => ?_⟩ hsights, rfl⟩
        · rw [parse_declared r.limit hparse, if_pos hlimit]
        · cases h
      · obtain ⟨form, hform, hvalue, htaken⟩ := Varint.form_of_parse hparse
        rw [List.append_nil] at htaken
        subst htaken
        rw [if_neg hlimit, ← hvalue]
        rw [← hvalue] at hlimit
        exact readPayload_reads (r := { r with input }) hform hlimit hsights
  · -- a stop before the last byte of the prefix
    rcases hatEnd with rfl | rfl
    · have htaken := Varint.nil_of_parse hparse
      subst htaken
      have hreads : (framing r.limit).Reads r.input
          ((how.mapError (.io .readLengthPrefix)).bind fun _ => .ok none) (.ofSource behind) :=
        .part ⟨rfl, .nothing⟩ hpasses
      rw [read, hread]
      cases how <;> exact ⟨hreads, rfl⟩
    · have hreads : (framing r.limit).Reads r.input
          ((how.mapError (.io .readLengthPrefix)).bind fun _ => .error .truncatedPrefix)
          (.ofSource behind) :=
        .part ⟨parse_malformed _ hparse, .header⟩ hpasses
      rw [read, hread]
      cases how <;> exact ⟨hreads, rfl⟩

/-- What is still to be read. -/
def Delivers (r : Reader) (bytes : Bytes) : Prop := DeliveringSupply.Delivers r.input bytes

/-- A new reader has the bytes of its source before it. -/
theorem delivers_ofSource {source : Source} {bytes : Bytes} (h : source.Delivers bytes)
    (limit : Nat) : (ofSource source limit).Delivers bytes :=
  BufferedSource.delivers_ofSource h

/-- **One read answers what the parser answers, and leaves what it leaves.** -/
theorem read_delivers {r : Reader} {bytes : Bytes} (h : r.Delivers bytes) :
    r.read.1 = (parse r.limit bytes).1 ∧ r.read.2.limit = r.limit
      ∧ r.read.2.Delivers (parse r.limit bytes).2 := by
  obtain ⟨hreads, hlimit⟩ := r.reads
  rcases hreads.delivers h with ⟨taken, later, rfl, ⟨hparse, hdecided⟩, hrest⟩
    | ⟨step, ⟨hparse, -⟩, hrest⟩
  · rw [parse_append_of_decided hparse hdecided]
    exact ⟨rfl, hlimit, hrest⟩
  · rw [hparse]
    exact ⟨rfl, hlimit, hrest⟩

/-! ## Reading on -/

/-- A reader and a parser with the same bytes in front of them and the same limit. -/
def Matches (r : Reader) (p : Parser) : Prop := r.limit = p.limit ∧ r.Delivers p.bytes

/-- A reader and the parser of its bytes answer alike, call after call. -/
theorem matches_simulates : Cursor.Simulates Matches := by
  rintro r ⟨bytes, limit⟩ ⟨rfl, hbytes⟩
  obtain ⟨hanswer, hlimit, hrest⟩ := read_delivers hbytes
  exact ⟨hanswer, hlimit, hrest⟩

/-- All answers are those of the parser, and what is left behind them is what it leaves. -/
theorem answers_delivers {source : Source} {bytes : Bytes} (h : source.Delivers bytes)
    (limit n : Nat) :
    Cursor.answers n (ofSource source limit) = Cursor.answers n (⟨bytes, limit⟩ : Parser)
      ∧ (Cursor.after n (ofSource source limit)).Delivers
          (Cursor.after n (⟨bytes, limit⟩ : Parser)).bytes := by
  have hmatch : Matches (ofSource source limit) ⟨bytes, limit⟩ := ⟨rfl, delivers_ofSource h limit⟩
  obtain ⟨hanswers, -, hafter⟩ := matches_simulates.answers hmatch n
  exact ⟨hanswers, hafter⟩

/-- Draining comes to a list of frames just where the bytes are a wire of them and none is too
long. -/
theorem drain_eq_ok_iff {source : Source} {bytes : Bytes} (h : source.Delivers bytes) {limit : Nat}
    {frames : List Bytes} :
    (Cursor.drain (ofSource source limit)).1 = .ok frames
      ↔ (∃ forms, Wire forms frames bytes) ∧ ∀ frame ∈ frames, frame.length ≤ limit := by
  rw [Cursor.drain_eq_ok_iff, (answers_delivers h limit _).1]
  refine ⟨wire_of_answers, ?_⟩
  rintro ⟨⟨forms, hwire⟩, hlimit⟩
  have hanswers := hwire.answers hlimit [] 1
  rw [List.append_nil] at hanswers
  exact hanswers

/-- **On any bytes a reader does what the parser does.** The answers to any number of reads are the
same, errors included, and so is what is left behind them.

Of any bytes that are left, the parser takes a form for a prefix, minimal or not, and asks for the
limit before it asks for the payload; of a malformed prefix it takes the bytes that were looked at,
ten at most. So no frame is longer than the limit. A drain succeeds where the bytes are a wire of
frames that are short enough; encoding these frames again makes the wire no longer, and gives it
back if and only if all its prefixes are minimal. -/
theorem refines_grammar {source : Source} {bytes : Bytes} (h : source.Delivers bytes)
    (limit : Nat) :
    (∀ n, Cursor.answers n (ofSource source limit) = Cursor.answers n (⟨bytes, limit⟩ : Parser)
        ∧ (Cursor.after n (ofSource source limit)).Delivers
            (Cursor.after n (⟨bytes, limit⟩ : Parser)).bytes)
      ∧ (∀ left, (left = [] ∧ parse limit left = (.ok none, []))
        ∨ (∃ form behind, Varint.Form form ∧ left = form ++ behind
          ∧ parse limit left =
            if limit < Varint.value form then
              (.error (.frameTooLarge (Varint.value form) limit), behind)
            else if behind.length < Varint.value form then
              (.error (.truncated (Varint.value form)), [])
            else (.ok (some (behind.take (Varint.value form))), behind.drop (Varint.value form)))
        ∨ ∃ looked behind e, Varint.Malformed looked behind e ∧ looked.length ≤ 10
          ∧ left = looked ++ behind ∧ parse limit left = (.error e, behind))
      ∧ (∀ n frame, .ok (some frame) ∈ Cursor.answers n (ofSource source limit)
          → frame.length ≤ limit)
      ∧ (∀ frames, (Cursor.drain (ofSource source limit)).1 = .ok frames
          ↔ (∃ forms, Wire forms frames bytes) ∧ ∀ frame ∈ frames, frame.length ≤ limit)
      ∧ ∀ forms frames, Wire forms frames bytes →
          (format.encode frames).length ≤ bytes.length
            ∧ (format.encode frames = bytes ↔ ∀ form ∈ forms, Varint.Minimal form) := by
  refine ⟨answers_delivers h limit, parse_cases limit, fun n frame hmem => ?_,
    fun frames => drain_eq_ok_iff h, fun forms frames hwire => ?_⟩
  · rw [(answers_delivers h limit n).1] at hmem
    exact Parser.length_le_of_mem_answers hmem
  · exact ⟨hwire.encode_length_le, hwire.encode_eq_iff⟩

/-- A prefix of two bytes that declares two, one that declares more than the limit of four, and one
that declares more than there is. -/
def hostileSource : Source :=
  [.data [0x82], .fail (.plain .interrupted "signal"), .data [0, 7, 8, 5], .data [1], .endOfInput]

theorem refines_grammar_hostileSource :
    hostileSource.Delivers [0x82, 0, 7, 8, 5, 1]
      ∧ Cursor.answers 4 (ofSource hostileSource 4)
        = [.ok (some [7, 8]), .error (.frameTooLarge 5 4), .error (.truncated 1), .ok none] := by
  have hsource : hostileSource.Delivers [0x82, 0, 7, 8, 5, 1] :=
    .data (.interrupted rfl (.data (.data (.ended .nil))))
  obtain ⟨hanswers, -⟩ := refines_grammar hsource 4
  exact ⟨hsource, (hanswers 4).1.trans (by decide +kernel)⟩

end Reader

end LengthPrefixed

end MessageFraming
