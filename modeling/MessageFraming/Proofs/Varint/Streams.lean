import MessageFraming.Proofs.Source.Stops
import MessageFraming.Proofs.Varint.Reading

/-!
# Varints in a stream

A reader of a varint stops behind its last byte, behind the tenth byte, or where the supply stops.
Up to there it sees what the grammar is about, and nothing that comes later makes a difference, be
it other bytes, an end of input or a failure.

* `read_sights`: a read takes bytes of which `parse` makes the answer, or comes to a stop.
* `read_shows`: so it does what `parse` says of the bytes up to the next stop. From what `parse`
  says, `read_of_number`, `read_of_overflow` and `read_of_end` tell the read, and
  `parse_of_read` tells it the other way round.
-/

namespace MessageFraming

namespace Varint

variable {σ : Type} [ByteSupply σ] [VisibleSupply σ]

open VisibleSupply

/-! ## Bytes and stops -/

/-- The loop of `read_sights`: it does what it does on the bytes that it takes, with nothing behind
them. -/
theorem readGroups_sights (value : UInt64) (groups : Nat) (s : σ) :
    (∃ taken answer rest, readGroups value groups s = (answer, rest)
        ∧ readGroups value groups (⟨taken, []⟩ : BufferedSource) = (answer, ⟨[], []⟩)
        ∧ (answer = .error .varintOverflow ∨ ∃ v, answer = .ok (some v))
        ∧ sights s = Sight.ofBytes taken ++ sights rest)
      ∨ ∃ taken atEnd how behind,
        readGroups value groups s
            = ((how.mapError (.io .readLengthPrefix)).bind fun _ => atEnd, ofSource behind)
          ∧ readGroups value groups (⟨taken, []⟩ : BufferedSource) = (atEnd, ⟨[], []⟩)
          ∧ (atEnd = .ok none ∨ atEnd = .error .truncatedPrefix)
          ∧ Passes (sights s) (Sight.ofBytes taken ++ [.stop how behind]) behind.sights := by
  induction groups generalizing value s with
  | zero => exact Or.inl ⟨[], .error .varintOverflow, s, rfl, rfl, Or.inl rfl, rfl⟩
  | succ groups ih =>
    have hbyte : ∀ b taken,
        pullByte (⟨b :: taken, []⟩ : BufferedSource) = (.ok (some b), ⟨taken, []⟩) :=
      fun _ _ => rfl
    have hend : pullByte (⟨[], []⟩ : BufferedSource) = (.ok none, ⟨[], []⟩) := by
      simp [pullByte, ByteSupply.pull, BufferedSource.pull, BufferedSource.fill,
        BufferedSource.consume]
    rcases pullByte_sights s with ⟨b, rest, hpull, hsights⟩ | ⟨how, behind, hpull, hpasses⟩
    · by_cases hb : b < continues
      · by_cases hover : groups = 0 ∧ 1 < b
        · refine Or.inl ⟨[b], .error .varintOverflow, rest, ?_, ?_, Or.inl rfl, hsights⟩
          · simp only [readGroups, hpull, if_pos hb, if_pos hover]
          · simp only [readGroups, hbyte, if_pos hb, if_pos hover]
        · refine Or.inl ⟨[b], .ok (some (value ||| b.toUInt64 <<< shiftOf groups)), rest, ?_, ?_,
            Or.inr ⟨_, rfl⟩, hsights⟩
          · simp only [readGroups, hpull, if_pos hb, if_neg hover]
          · simp only [readGroups, hbyte, if_pos hb, if_neg hover]
      · rcases ih (value ||| (b &&& 0x7f).toUInt64 <<< shiftOf groups) rest with
          ⟨taken, answer, last, hread, hreplay, hanswer, hlater⟩
          | ⟨taken, atEnd, how, behind, hread, hreplay, hatEnd, hpasses⟩
        · refine Or.inl ⟨b :: taken, answer, last, ?_, ?_, hanswer, ?_⟩
          · simp only [readGroups, hpull, if_neg hb, hread]
          · simp only [readGroups, hbyte, if_neg hb, hreplay]
          · rw [hsights, hlater]
            rfl
        · refine Or.inr ⟨b :: taken, atEnd, how, behind, ?_, ?_, hatEnd, ?_⟩
          · simp only [readGroups, hpull, if_neg hb, hread]
          · simp only [readGroups, hbyte, if_neg hb, hreplay]
          · have hfirst : sights s = Sight.ofBytes [b] ++ sights rest := hsights
            exact hpasses.behind_bytes hfirst
    · -- a stop: of the stream, if no byte came before
      refine Or.inr ⟨[], if groups + 1 = maxLength then .ok none else .error .truncatedPrefix, how,
        behind, ?_, ?_, ?_, hpasses⟩
      · rw [readGroups, hpull]
        cases how with
        | ok _ => by_cases hfirst : groups + 1 = maxLength <;> simp [hfirst]
        | error _ | crash _ => rfl
      · by_cases hfirst : groups + 1 = maxLength <;> simp [readGroups, hend, hfirst]
      · by_cases hfirst : groups + 1 = maxLength <;> simp [hfirst]

/-- **A varint is read up to its last byte, or up to a stop.** Of the bytes that were taken it says
what the grammar says. -/
theorem read_sights (s : σ) :
    (∃ taken answer rest, read s = (answer, rest)
        ∧ parse taken = (answer.map (Option.map UInt64.toNat), [])
        ∧ (answer = .error .varintOverflow ∨ ∃ v, answer = .ok (some v))
        ∧ sights s = Sight.ofBytes taken ++ sights rest)
      ∨ ∃ taken atEnd how behind,
        read s = ((how.mapError (.io .readLengthPrefix)).bind fun _ => atEnd, ofSource behind)
          ∧ parse taken = (atEnd.map (Option.map UInt64.toNat), [])
          ∧ (atEnd = .ok none ∨ atEnd = .error .truncatedPrefix)
          ∧ Passes (sights s) (Sight.ofBytes taken ++ [.stop how behind]) behind.sights := by
  -- what the call took, replayed on a source of just these bytes, is a run of the parser
  have hparse : ∀ taken answer,
      readGroups 0 maxLength (⟨taken, []⟩ : BufferedSource) = (answer, ⟨[], []⟩) →
        parse taken = (answer.map (Option.map UInt64.toNat), []) := by
    intro taken answer hreplay
    have htaken : DeliveringSupply.Delivers (⟨taken, []⟩ : BufferedSource) taken :=
      ⟨[], .nil, (List.append_nil taken).symm⟩
    obtain ⟨hanswer, later, hlater, hrest⟩ := read_delivers htaken
    rw [read, hreplay] at hanswer hlater hrest
    cases hlater
    exact Prod.ext hanswer.symm hrest
  rcases readGroups_sights 0 maxLength s with
    ⟨taken, answer, rest, hread, hreplay, hanswer, hsights⟩
    | ⟨taken, atEnd, how, behind, hread, hreplay, hatEnd, hpasses⟩
  · exact Or.inl ⟨taken, answer, rest, hread, hparse taken answer hreplay, hanswer, hsights⟩
  · exact Or.inr ⟨taken, atEnd, how, behind, hread, hparse taken atEnd hreplay, hatEnd, hpasses⟩

/-! ## Up to the next stop -/

/-- What is behind a number makes no difference to it. -/
theorem parse_append_of_number {taken : Bytes} {n : Nat} (h : parse taken = (.ok (some n), []))
    (left : Bytes) : parse (taken ++ left) = (.ok (some n), left) := by
  obtain ⟨form, hform, rfl, rfl⟩ := form_of_parse h
  rw [List.append_nil]
  exact hform.parse left

/-- An overflow is one whatever stands behind it. -/
theorem parse_append_of_overflow {taken : Bytes} (h : parse taken = (.error .varintOverflow, []))
    (left : Bytes) : parse (taken ++ left) = (.error .varintOverflow, left) := by
  rcases form_or_malformed taken with rfl | ⟨form, later, hform, rfl⟩ | ⟨looked, later, e, he, rfl⟩
  · cases h
  · rw [hform.parse] at h
    cases h
  · rw [he.parse] at h
    cases h
    rw [List.append_nil]
    cases he with
    | endless _ hall hlen => exact (Malformed.endless left hall hlen).parse
    | tooLarge _ hcomplete hlen hvalue =>
      exact (Malformed.tooLarge left hcomplete hlen hvalue).parse

variable {s next : σ} {bytes left : Bytes} {how : Outcome IoError Unit} {behind : Source}

/-- **A read does what `parse` says of the bytes up to the next stop.** If they make a number or an
overflow, it leaves those that are not part of it. Otherwise it comes to the stop. -/
theorem read_shows (h : Shows s bytes how behind) :
    (∃ v left next, read s = (.ok (some v), next) ∧ parse bytes = (.ok (some v.toNat), left)
        ∧ Shows next left how behind)
      ∨ (∃ left next, read s = (.error .varintOverflow, next)
        ∧ parse bytes = (.error .varintOverflow, left) ∧ Shows next left how behind)
      ∨ ∃ atEnd, (atEnd = .ok none ∨ atEnd = .error .truncatedPrefix)
        ∧ read s = ((how.mapError (.io .readLengthPrefix)).bind fun _ => atEnd, ofSource behind)
        ∧ parse bytes = (atEnd.map (Option.map UInt64.toNat), []) := by
  rcases read_sights s with ⟨taken, answer, next, hread, hparse, rfl | ⟨v, rfl⟩, hsights⟩
    | ⟨taken, atEnd, how', behind', hread, hparse, hatEnd, hpasses⟩
  · obtain ⟨left, rfl, hleft⟩ := h.of_taken hsights
    exact Or.inr (Or.inl ⟨left, next, hread, parse_append_of_overflow hparse left, hleft⟩)
  · obtain ⟨left, rfl, hleft⟩ := h.of_taken hsights
    exact Or.inl ⟨v, left, next, hread, parse_append_of_number hparse left, hleft⟩
  · obtain ⟨rfl, rfl, rfl⟩ := h.unique hpasses
    exact Or.inr (Or.inr ⟨atEnd, hatEnd, hread, hparse⟩)

/-- A number that can be parsed is read, and the supply stands right behind it. -/
theorem read_of_number {n : Nat} (h : Shows s bytes how behind)
    (hparse : parse bytes = (.ok (some n), left)) :
    ∃ v next, read s = (.ok (some v), next) ∧ v.toNat = n ∧ Shows next left how behind := by
  rcases read_shows h with ⟨v, left', next, hread, hsame, hnext⟩ | ⟨left', next, -, hsame, -⟩
    | ⟨atEnd, rfl | rfl, -, hsame⟩
  · cases hparse.symm.trans hsame
    exact ⟨v, next, hread, rfl, hnext⟩
  all_goals cases hparse.symm.trans hsame

/-- So it is with an overflow. -/
theorem read_of_overflow (h : Shows s bytes how behind)
    (hparse : parse bytes = (.error .varintOverflow, left)) :
    ∃ next, read s = (.error .varintOverflow, next) ∧ Shows next left how behind := by
  rcases read_shows h with ⟨v, left', next, -, hsame, -⟩ | ⟨left', next, hread, hsame, hnext⟩
    | ⟨atEnd, rfl | rfl, -, hsame⟩
  · cases hparse.symm.trans hsame
  · cases hparse.symm.trans hsame
    exact ⟨next, hread, hnext⟩
  all_goals cases hparse.symm.trans hsame

/-- Where the bytes come to an end too early, the stop is met. -/
theorem read_of_end {atEnd : Outcome FrameError (Option UInt64)} (h : Shows s bytes how behind)
    (hatEnd : atEnd = .ok none ∨ atEnd = .error .truncatedPrefix)
    (hparse : parse bytes = (atEnd.map (Option.map UInt64.toNat), left)) :
    read s = ((how.mapError (.io .readLengthPrefix)).bind fun _ => atEnd, ofSource behind) := by
  rcases read_shows h with ⟨v, left', next, -, hsame, -⟩ | ⟨left', next, -, hsame, -⟩
    | ⟨atEnd', rfl | rfl, hread, hsame⟩
  all_goals
    rcases hatEnd with rfl | rfl
    all_goals cases hparse.symm.trans hsame
  · exact hread
  · exact hread

/-- A number that is read stands in front of the stop. -/
theorem parse_of_read {v : UInt64} (h : Shows s bytes how behind)
    (hread : read s = (.ok (some v), next)) :
    ∃ left, parse bytes = (.ok (some v.toNat), left) ∧ Shows next left how behind := by
  rcases read_shows h with ⟨v', left, next', hsame, hparse, hnext⟩ | ⟨left, next', hsame, -, -⟩
    | ⟨atEnd, rfl | rfl, hsame, -⟩
  · cases hread.symm.trans hsame
    exact ⟨left, hparse, hnext⟩
  · cases hread.symm.trans hsame
  all_goals cases how <;> cases hread.symm.trans hsame

end Varint

end MessageFraming
