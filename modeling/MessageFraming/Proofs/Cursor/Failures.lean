import MessageFraming.Proofs.LengthPrefixed.Restart
import MessageFraming.Proofs.Lines.Restart

/-!
# Failures leave nothing behind

Both readers are put together here with what `Cursor.Recovers` says of a cursor over a source that
fails. For a reader of lines more can be said, because its framing tells which bytes are a frame
without any reader.
-/

namespace MessageFraming

namespace Cursor

/-- **A failure of the source is reported by one read, and leaves nothing behind in the reader**,
for every script and wherever in it a failure stands.

What is seen of the source in front of the failure is taken piece by piece, one answer for each
piece, and the pieces are those of the format. What is left of it then decides nothing, so that all
frames that were whole have been returned. The next read reports the failure, and from then on the
answers are those of a new reader over the events behind it. On the whole each failure is reported
once, in order.

A reader of lines that has met data without an end of input and without an overlong line has
returned just the terminated lines, and what there was of a line behind them is gone. -/
theorem failures_leave_nothing_behind :
    (∀ limit, Recovers (LengthPrefixed.framing limit)
        fun source => LengthPrefixed.Reader.ofSource source limit)
      ∧ (∀ config, Recovers (Lines.framing config)
          fun source => Lines.Reader.ofSource source config)
      ∧ ∀ (config : Lines.Config) (before behind : Source) (e : IoError) (bytes : Bytes),
          e.isInterrupted = false → before.Delivers bytes → Source.Event.endOfInput ∉ before →
          (∀ line ∈ Lines.split bytes, (Lines.strip line).length ≤ config.maxLineLength) →
          ∀ n, answers ((Lines.terminated config bytes).length + 1 + n)
              (Lines.Reader.ofSource (before ++ .fail e :: behind) config)
            = (Lines.terminated config bytes).map (fun frame => .ok (some frame))
              ++ .error (.io .readLine e) :: answers n (Lines.Reader.ofSource behind config) := by
  refine ⟨fun limit => (LengthPrefixed.Reader.follows limit).recovers,
    fun config => (Lines.Reader.follows config).recovers, ?_⟩
  intro config before behind e bytes he hbytes hend hshort n
  exact Lines.Reader.answers_of_broken he hbytes hend
    (fun line hmem => Nat.not_lt.mpr (hshort line hmem)) n

/-- The source fails in the middle of its second line. For a reader of length-prefixed frames that
is in the middle of its second payload. -/
def failingSource : Source :=
  [.data [2, 97, 10, 3], .fail (.plain .interrupted "signal"), .data [98],
    .fail (.plain .timedOut "late"), .data [1, 10], .endOfInput]

theorem failures_leave_nothing_behind_failingSource :
    (∃ enough, ∀ n, enough ≤ n →
        reported (answers n (LengthPrefixed.Reader.ofSource failingSource 9))
          = [.plain .timedOut "late"])
      ∧ answers 4 (Lines.Reader.ofSource failingSource ⟨9, false⟩)
        = [.ok (some [2, 97]), .error (.io .readLine (.plain .timedOut "late")), .ok (some [1]),
          .ok none] := by
  obtain ⟨hprefixed, -, hlines⟩ := failures_leave_nothing_behind
  refine ⟨((hprefixed 9).reports failingSource).2, ?_⟩
  -- the failure stands in the middle of a line, behind three events
  have hbefore : Source.Delivers (failingSource.take 3) [2, 97, 10, 3, 98] :=
    .data (.interrupted rfl (.data .nil))
  have hanswers := hlines ⟨9, false⟩ _ (failingSource.drop 4) (.plain .timedOut "late") _ rfl
    hbefore (by decide) (by decide +kernel) 2
  exact hanswers.trans (by decide +kernel)

end Cursor

end MessageFraming
