import MessageFraming.Lines.Reader
import MessageFraming.Proofs.Cursor.Restart
import MessageFraming.Proofs.Lines.Grammar
import Mathlib.Data.List.TakeWhile

/-!
# Readers of lines follow the grammar

`Lines.Reader` sees its input through a buffer that is filled by reads of any size, stages a line
across fills, and checks the limit in two places. None of this shows in what it reads:

* `Lines.framing`: a line is decided by its `\n`, or by being too long already. Giving up early on a
  growing line is right, because at most one `\r` can still come off (`overlong_of_length`).
* `Reader.scan_sights`, `Reader.reads`: a scan follows it, wherever fills cut the line and whatever
  the source does.
* `Reader.nextLine_delivers`: so a reader between two lines takes the first one of those to come.
* `Reader.drain_delivers`: draining a reader gives the frames of the grammar.
-/

namespace MessageFraming

namespace Lines

/-! ## Staged lines -/

/-- The bytes of a line under construction, in order. -/
def Staged.bytes (line : Staged) : Bytes := line.newestFirst.reverse

@[simp] theorem Staged.bytes_empty : Staged.empty.bytes = [] := rfl

@[simp] theorem Staged.bytes_push (line : Staged) (piece : Bytes) :
    (line.push piece).bytes = line.bytes ++ piece := by
  simp [Staged.bytes, Staged.push]

/-- The size of a staged line is kept along with its bytes. -/
theorem Staged.size_eq_length (line : Staged) : line.size = line.bytes.length := by
  rw [line.size_eq, Staged.bytes, List.length_reverse]

/-- So is whether it ends in a carriage return. -/
theorem Staged.stripped_eq (line : Staged) : line.stripped = strip line.bytes := by
  unfold Staged.stripped strip Staged.bytes
  cases line.newestFirst with
  | nil => rfl
  | cons b rest =>
    simp only [List.reverse_cons, List.getLast?_concat, Option.some.injEq, List.dropLast_concat]

/-- Only one byte is stripped. -/
theorem length_le_length_strip (line : Bytes) : line.length ≤ (strip line).length + 1 := by
  unfold strip
  split
  · rw [List.length_dropLast]
    omega
  · omega

/-- A line that is more than one byte past the limit stays overlong, whatever follows. -/
theorem overlong_of_length {limit : Nat} {line : Bytes} (h : limit + 1 < line.length)
    (more : Bytes) : Overlong limit (line ++ more) := by
  have hle := length_le_length_strip (line ++ more)
  rw [List.length_append] at hle
  unfold Overlong
  omega

/-- What a reader answers for a whole line. -/
def lineResult (limit : Nat) (line : Bytes) : FrameResult :=
  if Overlong limit line then .error (.lineTooLong limit) else .ok (some (strip line))

/-- The error about the length tells the limit, and is right. -/
theorem lineResult_tooLong {limit limit' : Nat} {line : Bytes}
    (h : lineResult limit line = .error (.lineTooLong limit')) :
    limit' = limit ∧ Overlong limit line := by
  unfold lineResult at h
  split at h
  · rename_i hlong
    cases h
    exact ⟨rfl, hlong⟩
  · cases h

/-- A staged line is judged as its bytes are. -/
theorem yieldLine_eq (limit : Nat) (line : Staged) :
    Reader.yieldLine limit line = lineResult limit line.bytes := by
  unfold Reader.yieldLine lineResult
  rw [Staged.stripped_eq]
  rfl

/-! ## The framing of lines -/

/-- What bytes are a line, or are too many for one. -/
inductive Whole (limit : Nat) : Bytes → FrameResult → Prop where
  | line {line : Bytes} : newline ∉ line → Whole limit (line ++ [newline]) (lineResult limit line)
  | grown {line : Bytes} : newline ∉ line → limit + 1 < line.length →
      Whole limit line (.error (.lineTooLong limit))

/-- What a reader answers for the bytes behind the last `\n`. -/
def lastResult (limit : Nat) (line : Bytes) : FrameResult :=
  if line = [] then .ok none else lineResult limit line

/-- No judgement on a line is a failure of the source. -/
theorem cause_lineResult (limit : Nat) (line : Bytes) :
    Cursor.cause (lineResult limit line) = none := by
  unfold lineResult
  split <;> rfl

def framing (config : Config) : Framing where
  whole := Whole config.maxLineLength
  part bytes step atEnd :=
    newline ∉ bytes ∧ step = .readLine ∧ atEnd = lastResult config.maxLineLength bytes
  skipsEmpty := config.skipEmpty
  ne_nil_of_whole := by
    rintro bytes answer (_ | ⟨-, hlong⟩) hnil
    · cases List.append_eq_nil_iff.mp hnil |>.2
    · subst hnil
      cases hlong
  cause_of_whole := by
    rintro bytes answer (_ | _)
    · exact cause_lineResult _ _
    · rfl
  cause_of_part := by
    rintro bytes step answer ⟨-, -, rfl⟩
    unfold lastResult
    split
    · rfl
    · exact cause_lineResult _ _

/-- Where a search finds a line feed, the bytes before it are the first line. -/
theorem eq_first_append_of_hit {bytes behind : Bytes} {c : UInt8}
    (h : bytes.dropWhile (· != newline) = c :: behind) :
    bytes = first bytes ++ newline :: behind := by
  have hcut : first bytes ++ bytes.dropWhile (· != newline) = bytes :=
    List.takeWhile_append_dropWhile
  have hc := List.head?_dropWhile_not (· != newline) bytes
  rw [h] at hcut hc
  rw [show c = newline by simpa using hc] at hcut
  exact hcut.symm

/-- Where it finds none, there is none. -/
theorem newline_not_mem_of_miss {bytes : Bytes} (h : bytes.dropWhile (· != newline) = []) :
    newline ∉ bytes := by
  intro hmem
  have hall := List.dropWhile_eq_nil_iff.mp h newline hmem
  simp at hall

/-- What is decided is the first line, whatever stands behind it, and no more than that line was
looked at. -/
theorem Whole.decides {limit : Nat} {taken : Bytes} {answer : FrameResult}
    (h : Whole limit taken answer) (later : Bytes) :
    answer = lineResult limit (first (taken ++ later))
      ∧ taken <+: first (taken ++ later) ++ [newline]
      ∧ (¬ Overlong limit (first (taken ++ later)) → behindFirst (taken ++ later) = later) := by
  cases h with
  | @line line hline =>
    have hall : ∀ b ∈ line, (b != newline) = true := fun b hmem =>
      bne_iff_ne.mpr fun hb => hline (hb ▸ hmem)
    have hfirst : first (line ++ newline :: later) = line := by
      rw [first_append_of_not_mem hline]
      simp [first]
    have hbehind : behindFirst (line ++ newline :: later) = later := by
      rw [behindFirst, List.dropWhile_append_of_pos hall]
      simp
    rw [List.append_assoc, List.singleton_append, hfirst, hbehind]
    exact ⟨rfl, List.prefix_refl _, fun _ => rfl⟩
  -- => the line is given up before its end, so what follows it does not matter
  | grown hline hlong =>
    have hoverlong := overlong_of_length hlong (first later)
    rw [first_append_of_not_mem hline, lineResult, if_pos hoverlong, List.append_assoc]
    exact ⟨rfl, List.prefix_append _ _, fun hshort => absurd hoverlong hshort⟩

namespace Reader

/-! ## One line -/

/-- **A scan takes bytes up to a `\n`, up to a stop, or until they are too many.** Recursion of
`scan`: what is staged stands in front of what it takes. -/
theorem scan_sights (limit : Nat) (line : Staged) (started : Bool) (s : BufferedSource)
    (hline : newline ∉ line.bytes) (hstarted : started = true ↔ line.bytes ≠ []) :
    (∃ bytes answer rest, scan limit line started s = (answer, rest)
        ∧ Whole limit (line.bytes ++ bytes) answer ∧ s.sights = Sight.ofBytes bytes ++ rest.sights)
      ∨ ∃ bytes how behind, scan limit line started s
            = ((how.mapError (.io .readLine)).bind fun _ => lastResult limit (line.bytes ++ bytes),
              .ofSource behind)
          ∧ newline ∉ line.bytes ++ bytes
          ∧ Passes s.sights (Sight.ofBytes bytes ++ [.stop how behind]) behind.sights := by
  fun_induction scan limit line started s with
  | case1 line started s e rest hfill =>
    obtain ⟨behind, rfl, hpasses⟩ := BufferedSource.fill_stop (.error e) hfill
    exact Or.inr ⟨[], .error e, behind, rfl, by rwa [List.append_nil], hpasses⟩
  | case2 line started s message rest hfill =>
    obtain ⟨behind, rfl, hpasses⟩ := BufferedSource.fill_stop (.crash message) hfill
    exact Or.inr ⟨[], .crash message, behind, rfl, by rwa [List.append_nil], hpasses⟩
  | case3 line started s rest hfill =>
    -- the end of input: what is staged is the line, if anything is
    obtain ⟨behind, rfl, hpasses⟩ := BufferedSource.fill_stop (.ok ()) hfill
    refine Or.inr ⟨[], .ok (), behind, ?_, by rwa [List.append_nil], hpasses⟩
    rw [List.append_nil, lastResult, yieldLine_eq]
    by_cases hnil : line.bytes = []
    · rw [if_neg (fun h => hstarted.mp h hnil), if_pos hnil]
      rfl
    · rw [if_pos (hstarted.mpr hnil), if_neg hnil]
      rfl
  | case4 line started s b bs rest hfill c behind hdrop =>
    -- the line ends in this fill
    obtain ⟨hbuffer, hsights⟩ := BufferedSource.fill_cons hfill
    have hcut := eq_first_append_of_hit hdrop
    refine Or.inl ⟨first (b :: bs) ++ [newline], _, _, rfl, ?_, ?_⟩
    · rw [yieldLine_eq, Staged.bytes_push, ← List.append_assoc]
      exact .line (by simpa using ⟨hline, newline_not_mem_first (b :: bs)⟩)
    · rw [hsights, BufferedSource.sights, BufferedSource.sights, hbuffer, ← List.append_assoc,
        ← Sight.ofBytes_append, List.append_assoc, List.singleton_append, ← hcut]
  | case5 line started s b bs rest hfill hdrop hlimit =>
    -- it goes on, and is too long already
    obtain ⟨hbuffer, hsights⟩ := BufferedSource.fill_cons hfill
    rw [Staged.size_eq_length, Staged.bytes_push] at hlimit
    refine Or.inl ⟨b :: bs, _, _, rfl, .grown ?_ hlimit, ?_⟩
    · exact fun hmem => (List.mem_append.mp hmem).elim hline (newline_not_mem_of_miss hdrop)
    · rw [hsights, BufferedSource.sights, hbuffer]
      rfl
  | case6 line started s b bs rest hfill hdrop hlimit ih =>
    -- it goes on, with this fill staged
    obtain ⟨hbuffer, hsights⟩ := BufferedSource.fill_cons hfill
    have hstaged : newline ∉ (line.push (b :: bs)).bytes := by
      rw [Staged.bytes_push]
      exact fun hmem => (List.mem_append.mp hmem).elim hline (newline_not_mem_of_miss hdrop)
    have hrest : s.sights
        = Sight.ofBytes (b :: bs) ++ BufferedSource.sights { rest with buffer := [] } := by
      rw [hsights, BufferedSource.sights, hbuffer]
      rfl
    have hnext := ih hstaged (by simp)
    simp only [Staged.bytes_push, List.append_assoc] at hnext
    rcases hnext with ⟨bytes, answer, last, hscan, hwhole, hlater⟩
      | ⟨bytes, how, behind, hscan, hopen, hpasses⟩
    · refine Or.inl ⟨b :: bs ++ bytes, answer, last, hscan, hwhole, ?_⟩
      rw [hrest, hlater, Sight.ofBytes_append, List.append_assoc]
    · exact Or.inr ⟨b :: bs ++ bytes, how, behind, hscan, hopen, hpasses.behind_bytes hrest⟩

/-- **One line follows the framing.** -/
theorem reads (r : Reader) :
    (framing r.config).Reads r.input r.nextLine.1 r.nextLine.2.input
      ∧ r.nextLine.2.config = r.config := by
  refine ⟨?_, rfl⟩
  rcases scan_sights r.config.maxLineLength .empty false r.input (by simp) (by simp) with
    ⟨bytes, answer, rest, hscan, hwhole, hsights⟩ | ⟨bytes, how, behind, hscan, hopen, hpasses⟩
  · rw [nextLine, hscan]
    exact .whole hwhole hsights
  · rw [nextLine, hscan]
    exact .part ⟨hopen, rfl, rfl⟩ hpasses

def Delivers (r : Reader) (bytes : Bytes) : Prop := r.input.Delivers bytes

/-- A new reader has the bytes of its source before it. -/
theorem delivers_ofSource {source : Source} {bytes : Bytes} (h : source.Delivers bytes)
    (config : Config) : (ofSource source config).Delivers bytes :=
  BufferedSource.delivers_ofSource h

/-- Between two lines: without input the stream is at its end, and otherwise its first line is
next. -/
theorem nextLine_delivers {r : Reader} {bytes : Bytes} (h : r.Delivers bytes) :
    r.nextLine.1
        = (if bytes = [] then .ok none else lineResult r.config.maxLineLength (first bytes))
      ∧ r.nextLine.2.config = r.config
      ∧ (¬ Overlong r.config.maxLineLength (first bytes)
          → r.nextLine.2.Delivers (behindFirst bytes)) := by
  obtain ⟨hreads, hconfig⟩ := r.reads
  rcases hreads.delivers h with ⟨taken, later, rfl, hwhole, hrest⟩ | ⟨step, ⟨hopen, -, hend⟩, hrest⟩
  · obtain ⟨hanswer, -, hbehind⟩ := hwhole.decides later
    have hne : taken ++ later ≠ [] :=
      List.append_ne_nil_of_left_ne_nil ((framing r.config).ne_nil_of_whole hwhole) later
    rw [if_neg hne]
    refine ⟨hanswer, hconfig, fun hshort => ?_⟩
    rw [hbehind hshort]
    exact hrest
  · -- there is no `\n` in what is left
    rw [first_of_not_mem hopen, behindFirst_of_not_mem hopen]
    exact ⟨hend, hconfig, fun _ => hrest⟩

/-! ## Reading -/

/-- At its end a reader stays at its end. -/
theorem read_end {r : Reader} (h : r.Delivers []) :
    ∃ rest, r.read = (.ok none, rest) ∧ rest.Delivers [] := by
  obtain ⟨hresult, -, hrest⟩ := nextLine_delivers h
  rw [if_pos rfl] at hresult
  exact ⟨_, read_of_no_line (Prod.ext hresult rfl) nofun, hrest (Nat.not_lt_zero _)⟩

/-- A first line that is too long is what the read is about. -/
theorem read_overlong {r : Reader} {bytes : Bytes} (h : r.Delivers bytes) (hne : bytes ≠ [])
    (hlong : Overlong r.config.maxLineLength (first bytes)) :
    ∃ rest, r.read = (.error (.lineTooLong r.config.maxLineLength), rest) := by
  obtain ⟨hresult, -, -⟩ := nextLine_delivers h
  rw [if_neg hne, lineResult, if_pos hlong] at hresult
  exact ⟨_, read_of_no_line (Prod.ext hresult rfl) nofun⟩

/-- A line that is short enough is read, or passed over as if the reader stood behind it. -/
theorem read_line {r : Reader} {bytes : Bytes} (h : r.Delivers bytes) (hne : bytes ≠ [])
    (hshort : ¬ Overlong r.config.maxLineLength (first bytes)) :
    ∃ rest, rest.config = r.config ∧ rest.Delivers (behindFirst bytes)
      ∧ r.read = if (strip (first bytes)).isEmpty && r.config.skipEmpty then rest.read
          else (.ok (some (strip (first bytes))), rest) := by
  obtain ⟨hresult, hconfig, hrest⟩ := nextLine_delivers h
  rw [if_neg hne, lineResult, if_neg hshort] at hresult
  exact ⟨r.nextLine.2, hconfig, hrest hshort, read_of_line (Prod.ext hresult rfl)⟩

/-- **Draining a reader gives the frames of the grammar**, however its source cuts the bytes. Strong
induction on the bytes: a read takes the first line off. -/
theorem drain_delivers {r : Reader} {bytes : Bytes} (h : r.Delivers bytes) :
    (Cursor.drain r).1 = frames r.config.maxLineLength r.config.skipEmpty bytes := by
  induction hn : bytes.length using Nat.strongRecOn generalizing r bytes with
  | ind n ih =>
    by_cases hne : bytes = []
    · subst hne
      obtain ⟨rest, hread, -⟩ := read_end h
      rw [Cursor.drain_end hread, frames_nil]
    · -- every line takes a byte, its newline if nothing else
      have hlt : (behindFirst bytes).length < n := hn ▸ behindFirst_length_lt hne
      rw [frames, split_eq_first_cons hne, collect_cons]
      by_cases hlong : Overlong r.config.maxLineLength (first bytes)
      · obtain ⟨rest, hread⟩ := read_overlong h hne hlong
        rw [Cursor.drain_error hread, if_pos hlong]
      · obtain ⟨rest, hconfig, hrest, hread⟩ := read_line h hne hlong
        have hlater := ih _ hlt hrest rfl
        rw [hconfig] at hlater
        rw [if_neg hlong]
        cases hskip : (strip (first bytes)).isEmpty && r.config.skipEmpty with
        | true =>
          rw [hskip, if_pos rfl] at hread
          rw [if_pos rfl, Cursor.drain_congr (show Cursor.read r = Cursor.read rest from hread)]
          exact hlater
        | false =>
          rw [hskip, if_neg (by simp)] at hread
          rw [if_neg (by simp), Cursor.drain_frame hread, hlater]
          rfl

end Reader

end Lines

end MessageFraming
