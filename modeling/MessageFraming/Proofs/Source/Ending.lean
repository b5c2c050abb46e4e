import MessageFraming.Proofs.Source.Stops

/-!
# How a source comes to an end

The bytes of a source are followed by an end of input or by a failure, and a reader that stops there
never sees what is behind. This module tells both together, which is all that a careful reader can
learn of a source, whatever pieces the bytes come in.

* `Source.Brings`: the bytes that come, and the ending behind them.
* `Source.brings_iff`: that is to show these bytes and then a stop of this kind.
* `Brings.gather_full`, `Brings.gather_short`: a gathering is one thing if enough bytes come, and
  another if the ending comes first. A failure right behind the last byte that was wanted is not
  met.
* `Brings.pullByte_cons`, `Brings.pullByte_nil`: the same of a single byte.
-/

namespace MessageFraming

namespace Source

/-- What stands behind the bytes of a source. -/
inductive Ending where
  | endOfInput
  | failure (cause : IoError)
deriving Repr, DecidableEq

/-- What a reader is told that comes to the ending. -/
def Ending.outcome : Ending → Outcome IoError Unit
  | endOfInput => .ok ()
  | failure cause => .error cause

/-- The source hands out `bytes`, in pieces of any size and with interruptions anywhere, and then
comes to `ending`. Nothing is said of what it does behind that. -/
inductive Brings : Source → Bytes → Ending → Prop where
  | exhausted : Brings [] [] .endOfInput
  | ended {rest : Source} : Brings (.endOfInput :: rest) [] .endOfInput
  | failed {e : IoError} {rest : Source} :
      e.isInterrupted = false → Brings (.fail e :: rest) [] (.failure e)
  | data {bytes later : Bytes} {ending : Ending} {rest : Source} :
      Brings rest later ending → Brings (.data bytes :: rest) (bytes ++ later) ending
  | interrupted {e : IoError} {bytes : Bytes} {ending : Ending} {rest : Source} :
      e.isInterrupted → Brings rest bytes ending → Brings (.fail e :: rest) bytes ending

/-- Delivered bytes are brought, with the end of input behind them. -/
theorem Delivers.brings {s : Source} {bytes : Bytes} (h : s.Delivers bytes) :
    s.Brings bytes .endOfInput := by
  induction h with
  | nil => exact .exhausted
  | data _ ih => exact .data ih
  | interrupted hint _ ih => exact .interrupted hint ih
  | ended _ _ => exact .ended

theorem Delivers.crashFree {s : Source} {bytes : Bytes} (h : s.Delivers bytes) : s.CrashFree := by
  intro message hmem
  induction h with
  | nil => cases hmem
  | data _ ih | interrupted _ _ ih | ended _ ih =>
    rcases List.mem_cons.mp hmem with hhead | hrest
    · cases hhead
    · exact ih hrest

/-! ## What is seen of it -/

/-- Up to the ending nothing but bytes is seen. Induction on the script. -/
theorem Brings.shows {s : Source} {bytes : Bytes} {ending : Ending}
    (h : s.Brings bytes ending) : ∃ behind, Shows s bytes ending.outcome behind := by
  induction h with
  | exhausted => exact ⟨[], shows_ahead []⟩
  | @ended rest => exact ⟨rest, passes_stop (.ok ()) rest⟩
  | @failed e rest he => exact ⟨rest, .of_failed he rest⟩
  | data _ ih =>
    obtain ⟨behind, hlater⟩ := ih
    exact ⟨behind, hlater.of_rest rfl⟩
  | interrupted he _ ih =>
    obtain ⟨behind, hlater⟩ := ih
    exact ⟨behind, hlater.of_interrupted he⟩

/-- A source that stops in this way brings what is ahead. Induction on the script. -/
theorem brings_ahead {s : Source} {ending : Ending} (h : s.stopOutcome = ending.outcome) :
    s.Brings s.ahead ending := by
  induction s with
  | nil =>
    cases ending with
    | endOfInput => exact .exhausted
    | failure cause => cases h
  | cons event rest ih =>
    cases event with
    | data bytes => exact .data (ih h)
    | fail e =>
      cases he : e.isInterrupted with
      | true =>
        -- an interruption is not the stop; it is further behind
        rw [stopOutcome_congr (fromStop_interrupted he rest)] at h
        rw [ahead_interrupted he]
        exact .interrupted he (ih h)
      | false =>
        -- any other failure is
        have hstop : (Event.fail e).isStop = true := by simp [Event.isStop, he]
        rw [stopOutcome, fromStop_stop hstop] at h
        rw [ahead_stop hstop]
        cases ending with
        | endOfInput => cases h
        | failure cause =>
          cases h
          exact .failed he
    | endOfInput =>
      cases ending with
      | endOfInput => exact .ended
      | failure cause => cases h
    | crash message => cases ending <;> cases h

/-- **To bring bytes to an ending is to show them in front of such a stop.** -/
theorem brings_iff {s : Source} {bytes : Bytes} {ending : Ending} :
    s.Brings bytes ending ↔ ∃ behind, Shows s bytes ending.outcome behind := by
  refine ⟨Brings.shows, ?_⟩
  rintro ⟨behind, hshows⟩
  obtain ⟨rfl, hstop, -⟩ := hshows.unique s.shows_ahead
  exact brings_ahead hstop.symm

/-! ## Loops over a source -/

/-- Enough bytes come. The ending is still to come then, even if it stands right behind them. -/
theorem Brings.gather_full {n : Nat} {s : Source} {bytes : Bytes} {ending : Ending}
    (h : s.Brings bytes ending) (hn : n ≤ bytes.length) :
    ∃ rest, gather n s = ⟨.ok (), bytes.take n, rest⟩ ∧ Brings rest (bytes.drop n) ending := by
  obtain ⟨behind, hshows⟩ := h.shows
  obtain ⟨rest, hgather, hrest⟩ := hshows.gather_full hn
  exact ⟨rest, hgather, brings_iff.mpr ⟨behind, hrest⟩⟩

/-- The ending comes first, and all bytes before it were gathered. -/
theorem Brings.gather_short {n : Nat} {s : Source} {bytes : Bytes} {ending : Ending}
    (h : s.Brings bytes ending) (hn : bytes.length < n) :
    ∃ rest, gather n s = ⟨ending.outcome, bytes, rest⟩ := by
  obtain ⟨behind, hshows⟩ := h.shows
  exact ⟨_, hshows.gather_short hn⟩

/-- The first byte comes alone. -/
theorem Brings.pullByte_cons {s : Source} {b : UInt8} {later : Bytes} {ending : Ending}
    (h : s.Brings (b :: later) ending) :
    ∃ rest, pullByte s = (.ok (some b), rest) ∧ Brings rest later ending := by
  obtain ⟨behind, hshows⟩ := h.shows
  obtain ⟨rest, hpull, hrest⟩ := hshows.pullByte_cons
  exact ⟨rest, hpull, brings_iff.mpr ⟨behind, hrest⟩⟩

/-- Without bytes the ending comes. -/
theorem Brings.pullByte_nil {s : Source} {ending : Ending} (h : s.Brings [] ending) :
    ∃ rest, pullByte s = (ending.outcome.map fun _ => none, rest) := by
  obtain ⟨behind, hshows⟩ := h.shows
  exact ⟨_, hshows.pullByte_nil⟩

end Source

end MessageFraming
