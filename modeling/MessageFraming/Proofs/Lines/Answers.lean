import MessageFraming.Proofs.Cursor.Answers
import MessageFraming.Proofs.Lines.Reading

/-!
# What reading lines gives, call by call

Draining a reader says whether there is an overlong line. Reading it call by call says more: every
line in front of the first overlong one is still read, and only then comes the error.

* `Lines.yielded`: the frames in front of the first overlong line.
* `Lines.Reader.answers_yielded`: a reader answers with these frames, and then stands at the end of
  its input or in front of an overlong line.
* `Lines.Reader.answers_eq_grammar`: so the answers are those of the grammar, wherever fills of the
  buffer cut the lines.
-/

namespace MessageFraming

namespace Lines

/-! ## Frames in front of an overlong line -/

/-- The frames of the lines in front of the first overlong one. -/
def yielded (limit : Nat) (skipEmpty : Bool) (lines : List Bytes) : List Bytes :=
  ((lines.takeWhile fun line => !decide (Overlong limit line)).map strip).filter
    fun frame => !(frame.isEmpty && skipEmpty)

@[simp] theorem yielded_nil (limit : Nat) (skipEmpty : Bool) :
    yielded limit skipEmpty [] = [] := rfl

/-- Behind a line that is too long nothing is yielded. -/
theorem yielded_overlong {limit : Nat} {line : Bytes} (h : Overlong limit line) (skipEmpty : Bool)
    (lines : List Bytes) : yielded limit skipEmpty (line :: lines) = [] := by
  rw [yielded, List.takeWhile_cons_of_neg (by simpa using h)]
  rfl

/-- A line that is not gives its frame, unless that is empty and skipped. -/
theorem yielded_short {limit : Nat} {line : Bytes} (h : ¬ Overlong limit line) (skipEmpty : Bool)
    (lines : List Bytes) :
    yielded limit skipEmpty (line :: lines) =
      if (strip line).isEmpty && skipEmpty then yielded limit skipEmpty lines
      else strip line :: yielded limit skipEmpty lines := by
  rw [yielded, List.takeWhile_cons_of_pos (by simpa using h), List.map_cons, List.filter_cons]
  cases (strip line).isEmpty && skipEmpty <;> rfl

namespace Reader

/-! ## Reading on -/

/-- A reader at its end says so on every call. -/
theorem answers_end {r : Reader} (h : r.Delivers []) (n : Nat) :
    Cursor.answers n r = List.replicate n (.ok none) := by
  induction n generalizing r with
  | zero => rfl
  | succ n ih =>
    obtain ⟨rest, hread, hrest⟩ := read_end h
    rw [Cursor.answers_succ hread, ih hrest, List.replicate_succ]

/-- A reader gives the frames in front of the first overlong line. Then it stands in front of that
line, or at the end of its input if there is none. Strong induction on the bytes. -/
theorem answers_yielded {r : Reader} {bytes : Bytes} (h : r.Delivers bytes) :
    ∃ (rest : Reader) (behind : Bytes), rest.config = r.config ∧ rest.Delivers behind
      ∧ ((behind = [] ∧ ∀ line ∈ split bytes, ¬ Overlong r.config.maxLineLength line)
        ∨ (behind ≠ [] ∧ Overlong r.config.maxLineLength (first behind)
          ∧ ∃ line ∈ split bytes, Overlong r.config.maxLineLength line))
      ∧ ∀ n, Cursor.answers
            ((yielded r.config.maxLineLength r.config.skipEmpty (split bytes)).length + n) r
          = (yielded r.config.maxLineLength r.config.skipEmpty (split bytes)).map
              (fun frame => .ok (some frame)) ++ Cursor.answers n rest := by
  induction hn : bytes.length using Nat.strongRecOn generalizing r bytes with
  | ind n ih =>
    by_cases hne : bytes = []
    · subst hne
      refine ⟨r, [], rfl, h, Or.inl ⟨rfl, by simp⟩, fun n => ?_⟩
      rw [split_nil, yielded_nil, List.length_nil, Nat.zero_add, List.map_nil, List.nil_append]
    rw [split_eq_first_cons hne]
    by_cases hlong : Overlong r.config.maxLineLength (first bytes)
    · -- the reader stands there already
      refine ⟨r, bytes, rfl, h, Or.inr ⟨hne, hlong, _, List.mem_cons_self, hlong⟩, fun n => ?_⟩
      rw [yielded_overlong hlong, List.length_nil, Nat.zero_add, List.map_nil, List.nil_append]
    · obtain ⟨next, hconfig, hnext, hread⟩ := read_line h hne hlong
      obtain ⟨rest, behind, hrest, hbehind, hstop, hlater⟩ :=
        ih _ (hn ▸ behindFirst_length_lt hne) hnext rfl
      rw [hconfig] at hrest hstop hlater
      refine ⟨rest, behind, hrest, hbehind, ?_, fun n => ?_⟩
      · rcases hstop with ⟨hend, hall⟩ | ⟨hbe, hfirst, line, hmem, hline⟩
        · refine Or.inl ⟨hend, fun line hmem => ?_⟩
          rcases List.mem_cons.mp hmem with rfl | hmem
          · exact hlong
          · exact hall line hmem
        · exact Or.inr ⟨hbe, hfirst, line, List.mem_cons_of_mem _ hmem, hline⟩
      · -- the first line is a frame, or this call goes on to the next line
        rw [yielded_short hlong]
        cases hskip : (strip (first bytes)).isEmpty && r.config.skipEmpty with
        | true =>
          rw [hskip, if_pos rfl] at hread
          rw [if_pos rfl, Cursor.answers_congr (show Cursor.read r = Cursor.read next from hread)]
          exact hlater n
        | false =>
          rw [hskip, if_neg (by simp)] at hread
          rw [if_neg (by simp), List.length_cons, Nat.succ_add, Cursor.answers_succ hread, hlater]
          rfl

/-- Without an overlong line the frames come, and then the end. -/
theorem answers_of_short {r : Reader} {bytes : Bytes} (h : r.Delivers bytes)
    (hshort : ∀ line ∈ split bytes, ¬ Overlong r.config.maxLineLength line) (n : Nat) :
    Cursor.answers ((yielded r.config.maxLineLength r.config.skipEmpty (split bytes)).length + n) r
      = (yielded r.config.maxLineLength r.config.skipEmpty (split bytes)).map
          (fun frame => .ok (some frame)) ++ List.replicate n (.ok none) := by
  obtain ⟨rest, behind, -, hbehind, hstop, hanswers⟩ := answers_yielded h
  rcases hstop with ⟨rfl, -⟩ | ⟨-, -, line, hmem, hlong⟩
  · rw [hanswers, answers_end hbehind]
  · exact absurd hlong (hshort line hmem)

/-- With one, the frames in front of it come, and then the error. -/
theorem answers_of_overlong {r : Reader} {bytes : Bytes} (h : r.Delivers bytes)
    (hlong : ∃ line ∈ split bytes, Overlong r.config.maxLineLength line) :
    Cursor.answers ((yielded r.config.maxLineLength r.config.skipEmpty (split bytes)).length + 1) r
      = (yielded r.config.maxLineLength r.config.skipEmpty (split bytes)).map
          (fun frame => .ok (some frame)) ++ [.error (.lineTooLong r.config.maxLineLength)] := by
  obtain ⟨line, hmem, hline⟩ := hlong
  obtain ⟨rest, behind, hconfig, hbehind, hstop, hanswers⟩ := answers_yielded h
  rcases hstop with ⟨-, hshort⟩ | ⟨hne, hfirst, -⟩
  · exact absurd hline (hshort line hmem)
  · rw [← hconfig] at hfirst
    obtain ⟨last, hread⟩ := read_overlong hbehind hne hfirst
    rw [hanswers, Cursor.answers_succ hread, hconfig]
    rfl

/-- Only an overlong line makes a reader answer with an error, sooner or later. -/
theorem error_answered_iff {r : Reader} {bytes : Bytes} (h : r.Delivers bytes) :
    (∃ n, .error (.lineTooLong r.config.maxLineLength) ∈ Cursor.answers n r)
      ↔ ∃ line ∈ split bytes, Overlong r.config.maxLineLength line := by
  constructor
  · rintro ⟨n, hmem⟩
    by_cases hlong : ∃ line ∈ split bytes, Overlong r.config.maxLineLength line
    · exact hlong
    · -- otherwise all answers are known, and the first `n` are among them
      have hshort := answers_of_short h (fun line hmem hline => hlong ⟨line, hmem, hline⟩) n
      have hlater := Cursor.mem_answers_of_le (Nat.le_add_left n
        (yielded r.config.maxLineLength r.config.skipEmpty (split bytes)).length) hmem
      rw [hshort] at hlater
      simp at hlater
  · intro hlong
    exact ⟨_, answers_of_overlong h hlong ▸ List.mem_append_right _ List.mem_cons_self⟩

/-- **A reader answers as the grammar of lines says**, however its source cuts and interrupts the
input. Where no line is overlong, its answers are the frames and then the end, as often as it is
asked. Otherwise they are the frames in front of the first overlong line, and then the error. So
there is an error if and only if some line, without its `\r`, is longer than the limit. -/
theorem answers_eq_grammar {source : Source} {bytes : Bytes} (h : source.Delivers bytes)
    (limit : Nat) (skipEmpty : Bool) :
    ((∀ line ∈ split bytes, (strip line).length ≤ limit) →
        ∀ n, Cursor.answers ((yielded limit skipEmpty (split bytes)).length + n)
            (ofSource source ⟨limit, skipEmpty⟩)
          = (yielded limit skipEmpty (split bytes)).map (fun frame => .ok (some frame))
            ++ List.replicate n (.ok none))
      ∧ ((∃ line ∈ split bytes, limit < (strip line).length) →
        Cursor.answers ((yielded limit skipEmpty (split bytes)).length + 1)
            (ofSource source ⟨limit, skipEmpty⟩)
          = (yielded limit skipEmpty (split bytes)).map (fun frame => .ok (some frame))
            ++ [.error (.lineTooLong limit)])
      ∧ ((∃ n, .error (.lineTooLong limit)
            ∈ Cursor.answers n (ofSource source ⟨limit, skipEmpty⟩))
          ↔ ∃ line ∈ split bytes, limit < (strip line).length) := by
  have hreader := delivers_ofSource h ⟨limit, skipEmpty⟩
  refine ⟨fun hshort n => ?_, answers_of_overlong hreader, error_answered_iff hreader⟩
  exact answers_of_short hreader (fun line hmem => Nat.not_lt.mpr (hshort line hmem)) n

/-- Three lines of two bytes, one of none and one of three. The second `\r` comes in another piece
than its `\n`, and its line is not overlong for that. -/
def overlongSource : Source :=
  [.data [97, 98, 13, 10, 99], .data [100, 13], .fail (.plain .interrupted "signal"), .data [10],
    .data [10, 101, 102, 103, 13, 10, 104], .endOfInput]

theorem answers_overlongSource :
    overlongSource.Delivers [97, 98, 13, 10, 99, 100, 13, 10, 10, 101, 102, 103, 13, 10, 104]
      ∧ Cursor.answers 3 (ofSource overlongSource ⟨2, true⟩)
        = [.ok (some [97, 98]), .ok (some [99, 100]), .error (.lineTooLong 2)]
      ∧ Cursor.answers 8 (ofSource overlongSource ⟨3, false⟩)
        = [.ok (some [97, 98]), .ok (some [99, 100]), .ok (some []), .ok (some [101, 102, 103]),
          .ok (some [104]), .ok none, .ok none, .ok none] := by
  have hsource : overlongSource.Delivers
      [97, 98, 13, 10, 99, 100, 13, 10, 10, 101, 102, 103, 13, 10, 104] :=
    .data (.data (.interrupted rfl (.data (.data (.ended .nil)))))
  obtain ⟨-, hoverlong, -⟩ := answers_eq_grammar hsource 2 true
  obtain ⟨hclean, -, -⟩ := answers_eq_grammar hsource 3 false
  exact ⟨hsource, hoverlong (by decide +kernel), hclean (by decide +kernel) 3⟩

end Reader

end Lines

end MessageFraming
