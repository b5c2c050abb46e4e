import MessageFraming.Proofs.Source.Delivery
import MessageFraming.Source.Buffered
import Mathlib.Data.List.Basic

/-!
# What is seen of a source

Readers see a source as a row of bytes and stops. A stop is an end of input, a failure or a crash,
and a read that meets one goes no further; pieces, empty data and interruptions are not seen at all.

* `Source.sights`: this row. Every stop carries the source behind it, since that is what a reader is
  left with: nothing of what was read before it.
* `Passes`: a reader has seen some of a row and has the others in front of it. Once the script is
  used up there is no end of ends of input.
* `VisibleSupply`: supplies of which the row can be told, with the law of a single pull.
  `pullByte_sights` and `gather_sights` are what follows for the loops over a supply.
-/

namespace MessageFraming

inductive Sight where
  | byte (b : UInt8)
  | stop (how : Outcome IoError Unit) (behind : Source)
deriving Repr, DecidableEq

namespace Sight

def ofBytes (bytes : Bytes) : List Sight := bytes.map byte

/-- What every read sees behind the script. -/
def final : Sight := .stop (.ok ()) []

def failure : Sight → Option IoError
  | stop (.error e) _ => some e
  | _ => none

def byte? : Sight → Option UInt8
  | byte b => some b
  | stop _ _ => none

@[simp] theorem ofBytes_nil : ofBytes [] = [] := rfl
@[simp] theorem ofBytes_cons (b : UInt8) (bytes : Bytes) :
    ofBytes (b :: bytes) = .byte b :: ofBytes bytes := rfl
@[simp] theorem ofBytes_append (a b : Bytes) : ofBytes (a ++ b) = ofBytes a ++ ofBytes b :=
  List.map_append

/-- Where only bytes are seen, no stop is. -/
theorem stop_not_mem_ofBytes (how : Outcome IoError Unit) (behind : Source) (bytes : Bytes) :
    .stop how behind ∉ ofBytes bytes := by
  simp [ofBytes]

@[simp] theorem failures_ofBytes (bytes : Bytes) : (ofBytes bytes).filterMap failure = [] := by
  simp [ofBytes, failure]

@[simp] theorem bytes_ofBytes (bytes : Bytes) : (ofBytes bytes).filterMap byte? = bytes := by
  induction bytes with
  | nil => rfl
  | cons b bytes ih => rw [ofBytes_cons, List.filterMap_cons, ih]; rfl

end Sight

/-! ## Rows -/

namespace Source

/-- What is seen of a source that has `tail` behind it. -/
def sightsBefore : Source → Source → List Sight
  | [], _ => []
  | .data bytes :: rest, tail => Sight.ofBytes bytes ++ sightsBefore rest tail
  | .fail e :: rest, tail =>
    if e.isInterrupted then sightsBefore rest tail
    else .stop (.error e) (rest ++ tail) :: sightsBefore rest tail
  | .endOfInput :: rest, tail => .stop (.ok ()) (rest ++ tail) :: sightsBefore rest tail
  | .crash message :: rest, tail =>
    .stop (.crash message) (rest ++ tail) :: sightsBefore rest tail

def sights (s : Source) : List Sight := s.sightsBefore []

/-- An interrupted read is made again, and is no failure. -/
def Event.failure : Event → Option IoError
  | .fail e => if e.isInterrupted then none else some e
  | _ => none

def failures (s : Source) : List IoError := s.filterMap Event.failure

/-- The failures that are seen are those of the source, in order. -/
theorem failures_sights (s : Source) : s.sights.filterMap Sight.failure = s.failures := by
  unfold sights
  induction s with
  | nil => rfl
  | cons event rest ih =>
    cases event with
    | data bytes =>
      rw [sightsBefore, List.filterMap_append, Sight.failures_ofBytes, ih]
      rfl
    | fail e =>
      rw [sightsBefore, failures, List.filterMap_cons, Event.failure]
      -- an interruption is no failure, and not seen
      split
      · exact ih
      · rw [List.filterMap_cons, ih]
        rfl
    | endOfInput | crash message => exact ih

/-- All bytes of the script, also those behind a failure or an end of input. -/
def data : Source → Bytes
  | [] => []
  | .data bytes :: rest => bytes ++ data rest
  | _ :: rest => data rest

/-- The bytes that are seen are its data, in order. -/
theorem data_sights (s : Source) : s.sights.filterMap Sight.byte? = s.data := by
  unfold sights
  induction s with
  | nil => rfl
  | cons event rest ih =>
    cases event with
    | data bytes => rw [sightsBefore, List.filterMap_append, Sight.bytes_ofBytes, ih, data]
    | fail e =>
      rw [sightsBefore]
      split
      · exact ih
      · exact ih
    | endOfInput | crash message => exact ih

/-- If a failure will be reported, there is a first one to be found in the script. -/
theorem exists_fail {s : Source} (h : s.failures ≠ []) :
    ∃ before e behind, e.isInterrupted = false ∧ s = before ++ .fail e :: behind := by
  obtain ⟨e, hmem⟩ := List.exists_mem_of_ne_nil _ h
  obtain ⟨event, hevent, hfailure⟩ := List.mem_filterMap.mp hmem
  obtain ⟨before, behind, rfl⟩ := List.append_of_mem hevent
  cases event with
  | fail e' =>
    refine ⟨before, e', behind, ?_, rfl⟩
    cases hint : e'.isInterrupted with
    | false => rfl
    | true => simp [Event.failure, hint] at hfailure
  | data _ | endOfInput | crash _ => cases hfailure

/-- Two parts of a script are seen one after the other, the first with the second behind it. -/
theorem sightsBefore_append (a b tail : Source) :
    (a ++ b).sightsBefore tail = a.sightsBefore (b ++ tail) ++ b.sightsBefore tail := by
  induction a with
  | nil => rfl
  | cons event a ih =>
    cases event with
    | data bytes => simp only [List.cons_append, sightsBefore, ih, List.append_assoc]
    | fail e =>
      simp only [List.cons_append, sightsBefore, ih, List.append_assoc]
      split <;> rfl
    | endOfInput | crash message =>
      simp only [List.cons_append, sightsBefore, ih, List.append_assoc]

/-- A failure that is no interruption is seen between what is in front of it and what is behind. -/
theorem sights_append_fail (before behind : Source) {e : IoError} (he : e.isInterrupted = false) :
    (before ++ .fail e :: behind).sights
      = before.sightsBefore (.fail e :: behind) ++ .stop (.error e) behind :: behind.sights := by
  rw [sights, sightsBefore_append, List.append_nil]
  simp only [sightsBefore, he, Bool.false_eq_true, if_false, List.append_nil]
  rfl

/-- Bytes that are given back are seen again. -/
theorem sights_unread (bytes : Bytes) (rest : Source) :
    (unread bytes rest).sights = Sight.ofBytes bytes ++ rest.sights := by
  unfold unread
  split
  · rename_i hempty
    rw [List.isEmpty_iff.mp hempty]
    rfl
  · rfl

/-- Of data and interruptions nothing is seen but the bytes. -/
theorem Delivers.sightsBefore_eq {s : Source} {bytes : Bytes} (h : s.Delivers bytes)
    (hend : Event.endOfInput ∉ s) (tail : Source) : s.sightsBefore tail = Sight.ofBytes bytes := by
  induction h with
  | nil => rfl
  | data _ ih => rw [sightsBefore, ih (List.not_mem_of_not_mem_cons hend), Sight.ofBytes_append]
  | interrupted hint _ ih =>
    rw [sightsBefore, if_pos hint]
    exact ih (List.not_mem_of_not_mem_cons hend)
  | ended => exact absurd List.mem_cons_self hend

end Source

/-- Of a row `before` a reader has seen `seen`, and `after` is in front of it. -/
def Passes (before seen after : List Sight) : Prop :=
  ∃ n, seen ++ after = before ++ List.replicate n Sight.final ∧ (n = 0 ∨ after = [])

namespace Passes

variable {before between after seen seen' : List Sight}

/-- What is seen on the way is a front of what was to be seen. -/
theorem of_eq (h : before = seen ++ after) : Passes before seen after :=
  ⟨0, by rw [List.replicate_zero, List.append_nil, h], Or.inl rfl⟩

/-- One passage after the other. -/
theorem trans (h : Passes before seen between) (h' : Passes between seen' after) :
    Passes before (seen ++ seen') after := by
  obtain ⟨n, hn, hn'⟩ := h
  obtain ⟨m, hm, hm'⟩ := h'
  refine ⟨n + m, ?_, ?_⟩
  · rw [List.append_assoc, hm, ← List.append_assoc, hn, List.append_assoc,
      List.replicate_append_replicate]
  · rcases hm' with rfl | hafter
    · rcases hn' with rfl | rfl
      · exact Or.inl rfl
      · exact Or.inr (List.append_eq_nil_iff.mp hm).2
    · exact Or.inr hafter

/-- Bytes in front of a row are seen together with those that it begins with. -/
theorem behind_bytes {taken left : Bytes} (h : Passes between (Sight.ofBytes left ++ seen) after)
    (hrow : before = Sight.ofBytes taken ++ between) :
    Passes before (Sight.ofBytes (taken ++ left) ++ seen) after := by
  rw [Sight.ofBytes_append, List.append_assoc]
  exact (of_eq hrow).trans h

/-- A failure is part of the row. -/
theorem of_failure {e : IoError} {behind : Source}
    (h : Passes before (seen ++ [.stop (.error e) behind]) after) :
    before = seen ++ .stop (.error e) behind :: after := by
  obtain ⟨n, hn, rfl | rfl⟩ := h
  · rw [List.replicate_zero, List.append_nil, List.append_assoc] at hn
    exact hn.symm
  · cases n with
    | zero =>
      rw [List.replicate_zero, List.append_nil, List.append_nil] at hn
      exact hn.symm
    | succ n =>
      rw [List.append_nil, List.replicate_succ', ← List.append_assoc] at hn
      cases List.append_inj_right' hn rfl

/-- Ends of input behind the script hide nothing that is no end of input. -/
theorem filterMap_append {α : Type} {f : Sight → Option α} (hf : f Sight.final = none)
    (h : Passes before seen after) :
    seen.filterMap f ++ after.filterMap f = before.filterMap f := by
  obtain ⟨n, hn, -⟩ := h
  have hfinal : (List.replicate n Sight.final).filterMap f = [] :=
    List.filterMap_eq_nil_iff.mpr fun sight hmem => by rw [(List.mem_replicate.mp hmem).2, hf]
  rw [← List.filterMap_append, hn, List.filterMap_append, hfinal, List.append_nil]

/-- A passage loses no failure. -/
theorem failures (h : Passes before seen after) :
    seen.filterMap Sight.failure ++ after.filterMap Sight.failure
      = before.filterMap Sight.failure :=
  h.filterMap_append rfl

end Passes

/-! ## Supplies -/

namespace Outcome

variable {how how' : Outcome IoError Unit}

/-- Who stops has taken nothing. -/
theorem stopped_ne_piece {b : UInt8} {bs : Bytes} : (how.map fun _ => []) ≠ .ok (b :: bs) := by
  cases how <;> intro h <;> cases h

/-- What a stop was can be told from the pull. -/
theorem stopped_inj (h : (how.map fun _ => ([] : Bytes)) = how'.map fun _ => []) : how = how' := by
  cases how <;> cases how' <;> cases h <;> rfl

end Outcome

/-- Supplies of which it can be told what is seen of them. -/
class VisibleSupply (σ : Type) [ByteSupply σ] where
  ofSource : Source → σ
  sights : σ → List Sight
  /-- A pull takes some of the next bytes, or meets the stop that is next. -/
  pull_sights : ∀ {n : Nat} (s : σ), 0 < n →
    (∃ b bs rest, ByteSupply.pull n s = (.ok (b :: bs), rest) ∧ bs.length < n
        ∧ sights s = Sight.ofBytes (b :: bs) ++ sights rest)
      ∨ ∃ how behind, ByteSupply.pull n s = (how.map fun _ => [], ofSource behind)
        ∧ Passes (sights s) [.stop how behind] behind.sights

namespace Source

/-- A stop is seen alone, and behind it is what the rest of the script shows. -/
theorem passes_stop (how : Outcome IoError Unit) (behind : Source) :
    Passes (.stop how (behind ++ []) :: behind.sights) [.stop how behind] behind.sights :=
  .of_eq (by rw [List.append_nil, List.singleton_append])

/-- Induction on the script: interruptions and empty data are passed over. -/
theorem pull_sights {n : Nat} (s : Source) (hn : 0 < n) :
    (∃ b bs rest, s.pull n = (.ok (b :: bs), rest) ∧ bs.length < n
        ∧ s.sights = Sight.ofBytes (b :: bs) ++ rest.sights)
      ∨ ∃ how behind, s.pull n = (how.map fun _ => [], behind)
        ∧ Passes s.sights [.stop how behind] behind.sights := by
  induction s with
  | nil => exact Or.inr ⟨.ok (), [], pull_nil n, 1, rfl, Or.inr rfl⟩
  | cons event rest ih =>
    cases event with
    | data bytes =>
      cases bytes with
      | nil =>
        rw [pull_data_nil]
        exact ih
      | cons b bs =>
        obtain ⟨k, rfl⟩ := Nat.exists_eq_succ_of_ne_zero (Nat.ne_of_gt hn)
        refine Or.inl ⟨b, bs.take k, _, pull_data_cons (k + 1) b bs rest, ?_, ?_⟩
        · rw [List.length_take]
          exact Nat.lt_succ_of_le (Nat.min_le_left k bs.length)
        · rw [sights_unread, ← List.append_assoc, ← Sight.ofBytes_append, List.drop_succ_cons,
            List.cons_append, List.take_append_drop]
          rfl
    | fail e =>
      rw [pull_fail, sights, sightsBefore]
      split
      · exact ih
      · exact Or.inr ⟨.error e, rest, rfl, passes_stop _ _⟩
    | endOfInput => exact Or.inr ⟨.ok (), rest, pull_endOfInput n rest, passes_stop _ _⟩
    | crash message =>
      exact Or.inr ⟨.crash message, rest, pull_crash n message rest, passes_stop _ _⟩

instance : VisibleSupply Source where
  ofSource source := source
  sights := sights
  pull_sights := pull_sights

end Source

namespace BufferedSource

/-- Buffered bytes are seen before the source is. -/
def sights (s : BufferedSource) : List Sight := Sight.ofBytes s.buffer ++ s.source.sights

@[simp] theorem sights_ofSource (source : Source) : (ofSource source).sights = source.sights := rfl

/-- A fill shows some of the next bytes, or meets the stop that is next. -/
theorem fill_sights (s : BufferedSource) :
    (∃ b bs rest, s.fill = (.ok (b :: bs), rest) ∧ rest.buffer = b :: bs ∧ s.sights = rest.sights)
      ∨ ∃ how behind, s.fill = (how.map fun _ => [], ofSource behind)
        ∧ Passes s.sights [.stop how behind] behind.sights := by
  obtain ⟨buffer, source⟩ := s
  cases buffer with
  | cons b bs => exact Or.inl ⟨b, bs, _, rfl, rfl, rfl⟩
  | nil =>
    -- an empty buffer is filled by a pull
    rcases source.pull_sights (n := sourceWindow) (by decide) with
      ⟨b, bs, rest, hpull, -, hsights⟩ | ⟨how, behind, hpull, hpasses⟩
    · refine Or.inl ⟨b, bs, ⟨b :: bs, rest⟩, ?_, rfl, hsights⟩
      simp only [fill, List.isEmpty_nil, if_true, hpull]
    · refine Or.inr ⟨how, behind, ?_, hpasses⟩
      cases how <;> simp only [fill, List.isEmpty_nil, if_true, hpull] <;> rfl

/-- A buffer that was filled holds what comes next. -/
theorem fill_cons {s filled : BufferedSource} {b : UInt8} {bs : Bytes}
    (h : s.fill = (.ok (b :: bs), filled)) :
    filled.buffer = b :: bs ∧ s.sights = filled.sights := by
  rcases s.fill_sights with ⟨b', bs', rest, hfill, hbuffer, hsights⟩ | ⟨how, behind, hfill, -⟩
  · cases hfill.symm.trans h
    exact ⟨hbuffer, hsights⟩
  · exact absurd (congrArg Prod.fst (hfill.symm.trans h)) Outcome.stopped_ne_piece

/-- One that could not be filled has met the stop that comes next. -/
theorem fill_stop {s filled : BufferedSource} (how : Outcome IoError Unit)
    (h : s.fill = (how.map fun _ => [], filled)) :
    ∃ behind, filled = ofSource behind ∧ Passes s.sights [.stop how behind] behind.sights := by
  rcases s.fill_sights with ⟨b, bs, rest, hfill, -⟩ | ⟨how', behind, hfill, hpasses⟩
  · exact absurd (congrArg Prod.fst (h.symm.trans hfill)) Outcome.stopped_ne_piece
  · obtain ⟨hhow, rfl⟩ := Prod.mk.inj (h.symm.trans hfill)
    obtain rfl := Outcome.stopped_inj hhow
    exact ⟨behind, rfl, hpasses⟩

/-- A pull is answered with bytes that come next, or with the stop that comes next. -/
theorem pull_sights {n : Nat} (s : BufferedSource) (hn : 0 < n) :
    (∃ b bs rest, s.pull n = (.ok (b :: bs), rest) ∧ bs.length < n
        ∧ s.sights = Sight.ofBytes (b :: bs) ++ rest.sights)
      ∨ ∃ how behind, s.pull n = (how.map fun _ => [], ofSource behind)
        ∧ Passes s.sights [.stop how behind] behind.sights := by
  rcases s.fill_sights with ⟨b, bs, rest, hfill, hbuffer, hsights⟩ | ⟨how, behind, hfill, hpasses⟩
  · obtain ⟨k, rfl⟩ := Nat.exists_eq_succ_of_ne_zero (Nat.ne_of_gt hn)
    refine Or.inl ⟨b, bs.take k, rest.consume (k + 1), by rw [pull, hfill]; rfl, ?_, ?_⟩
    · rw [List.length_take]
      exact Nat.lt_succ_of_le (Nat.min_le_left k bs.length)
    · rw [hsights, sights, sights, consume, hbuffer, ← List.append_assoc, ← Sight.ofBytes_append,
        List.drop_succ_cons, List.cons_append, List.take_append_drop]
  · refine Or.inr ⟨how, behind, ?_, hpasses⟩
    rw [pull, hfill]
    cases how with
    | ok _ => simp [consume, ofSource]
    | error _ | crash _ => rfl

instance : VisibleSupply BufferedSource where
  ofSource := ofSource
  sights := sights
  pull_sights := pull_sights

end BufferedSource

/-! ## Loops over a supply -/

section

variable {σ : Type} [ByteSupply σ] [VisibleSupply σ]

open VisibleSupply

/-- The next byte comes, or the stop that is next. -/
theorem pullByte_sights (s : σ) :
    (∃ b rest, pullByte s = (.ok (some b), rest) ∧ sights s = .byte b :: sights rest)
      ∨ ∃ how behind, pullByte s = (how.map fun _ => none, ofSource behind)
        ∧ Passes (sights s) [.stop how behind] behind.sights := by
  rcases pull_sights s Nat.one_pos with ⟨b, bs, rest, hpull, hlt, hsights⟩
    | ⟨how, behind, hpull, hpasses⟩
  · have hbs : bs = [] := List.length_eq_zero_iff.mp (Nat.lt_one_iff.mp hlt)
    subst hbs
    exact Or.inl ⟨b, rest, by rw [pullByte, hpull]; rfl, hsights⟩
  · refine Or.inr ⟨how, behind, ?_, hpasses⟩
    rw [pullByte, hpull]
    cases how <;> rfl

theorem pull_cons {n : Nat} {s rest : σ} {b : UInt8} {bs : Bytes} (hn : 0 < n)
    (h : ByteSupply.pull n s = (.ok (b :: bs), rest)) :
    bs.length < n ∧ sights s = Sight.ofBytes (b :: bs) ++ sights rest := by
  rcases pull_sights s hn with ⟨b', bs', rest', hpull, hlt, hsights⟩ | ⟨how, behind, hpull, -⟩
  · cases hpull.symm.trans h
    exact ⟨hlt, hsights⟩
  · exact absurd (congrArg Prod.fst (hpull.symm.trans h)) Outcome.stopped_ne_piece

theorem pull_stop {n : Nat} {s rest : σ} (hn : 0 < n) (how : Outcome IoError Unit)
    (h : ByteSupply.pull n s = (how.map fun _ => [], rest)) :
    ∃ behind, rest = ofSource behind ∧ Passes (sights s) [.stop how behind] behind.sights := by
  rcases pull_sights s hn with ⟨b, bs, rest', hpull, -⟩ | ⟨how', behind, hpull, hpasses⟩
  · exact absurd (congrArg Prod.fst (h.symm.trans hpull)) Outcome.stopped_ne_piece
  · obtain ⟨hhow, rfl⟩ := Prod.mk.inj (h.symm.trans hpull)
    obtain rfl := Outcome.stopped_inj hhow
    exact ⟨behind, rfl, hpasses⟩

/-- Each pull sees its piece, and the last one may see a stop. Induction on the row of pulls. -/
theorem sights_of_gathers {n : Nat} {s rest : σ} {got : Bytes} {how : Outcome IoError Unit}
    (h : Gathers n s got how rest) :
    (how = .ok () ∧ got.length = n ∧ sights s = Sight.ofBytes got ++ sights rest)
      ∨ ∃ behind, rest = ofSource behind ∧ got.length < n
        ∧ Passes (sights s) (Sight.ofBytes got ++ [.stop how behind]) behind.sights := by
  induction h with
  | enough s => exact Or.inl ⟨rfl, rfl, rfl⟩
  | stopped hn hpull =>
    -- the stop was met, and the pieces before it are all there is
    obtain ⟨behind, rfl, hpasses⟩ := pull_stop hn _ hpull
    exact Or.inr ⟨behind, rfl, hn, hpasses⟩
  | piece hn hpull _ ih =>
    obtain ⟨hlt, hsights⟩ := pull_cons hn hpull
    rw [List.length_append, List.length_cons]
    rcases ih with ⟨hok, hlen, hlast⟩ | ⟨behind, rfl, hlen, hpasses⟩
    · refine Or.inl ⟨hok, by omega, ?_⟩
      rw [hsights, hlast, Sight.ofBytes_append, List.append_assoc]
    · exact Or.inr ⟨behind, rfl, by omega, hpasses.behind_bytes hsights⟩

/-- **A gathering sees the bytes that it asks for, or fewer and then a stop.** -/
theorem gather_sights (n : Nat) (s : σ) :
    (∃ taken rest, gather n s = ⟨.ok (), taken, rest⟩ ∧ taken.length = n
        ∧ sights s = Sight.ofBytes taken ++ sights rest)
      ∨ ∃ taken how behind, gather n s = ⟨how, taken, ofSource behind⟩ ∧ taken.length < n
        ∧ Passes (sights s) (Sight.ofBytes taken ++ [.stop how behind]) behind.sights := by
  obtain ⟨taken, how, rest, hgather, hgathers⟩ := gather_gathers n s
  rcases sights_of_gathers hgathers with ⟨rfl, hfull⟩ | ⟨behind, rfl, hshort⟩
  · exact Or.inl ⟨taken, rest, hgather, hfull⟩
  · exact Or.inr ⟨taken, how, behind, hgather, hshort⟩

end

end MessageFraming
