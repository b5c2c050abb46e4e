import MessageFraming.Proofs.Lines.Restart
import MessageFraming.Proofs.Source.Stops
import MessageFraming.Proofs.Source.Supply

/-!
# What is staged of a line

A line may be as long as the input, and a reader must not keep all of it. It looks at its staged
line behind every fill, so a line that it goes on with is at most one byte past the limit, and the
next fill adds no more than a window. That is all there is to it, and it holds whatever the source
does.

* `Reader.record`: a scan with a record of the line at every point of it. But for the record it is
  `scan` (`Reader.record_scan`).
* `Reader.record_staging`: what the record holds: the line grows by one fill after the other, and
  the last point of it is what the scan answers with.
* `Reader.record_within`: what one fill after the other keeps: the lines in the record are within
  the limit and a window, and so are the bytes that the scan has taken.
* `Reader.scanning_is_bounded`: what that comes to for a reader, after any number of lines.
-/

namespace MessageFraming

/-! ## Windows -/

namespace BufferedSource

/-- The buffer holds one window at most. -/
def Windowed (s : BufferedSource) : Prop := s.buffer.length ≤ sourceWindow

theorem windowed_ofSource (source : Source) : (ofSource source).Windowed := Nat.zero_le _

/-- A fill that is not needed changes nothing, and one that is brings one window at most. -/
theorem Windowed.fill {s filled : BufferedSource} {outcome : Outcome IoError Bytes}
    (h : s.Windowed) (hfill : s.fill = (outcome, filled)) :
    filled.Windowed ∧ filled.remaining = s.remaining := by
  refine ⟨?_, by simpa only [hfill] using s.fill_remaining⟩
  obtain ⟨buffer, source⟩ := s
  cases buffer with
  | cons b bs =>
    cases hfill
    exact h
  | nil =>
    -- only a used-up buffer is filled again, by a single pull of a window
    simp only [BufferedSource.fill, List.isEmpty_nil, if_true] at hfill
    rcases hpull : source.pull sourceWindow with ⟨piece | e | message, rest⟩ <;>
      rw [hpull] at hfill <;> cases hfill
    · exact Source.pull_length_le (by decide) hpull
    · exact Nat.zero_le _
    · exact Nat.zero_le _

/-- The bytes of a fill are at most a window, and are taken from what remained. -/
theorem Windowed.fill_cons {s filled : BufferedSource} {b : UInt8} {bs : Bytes} (h : s.Windowed)
    (hfill : s.fill = (.ok (b :: bs), filled)) :
    (b :: bs).length ≤ sourceWindow ∧ s.remaining = (b :: bs).length + filled.source.left := by
  obtain ⟨hwindow, -⟩ := h.fill hfill
  rw [Windowed, fill_buffer hfill] at hwindow
  exact ⟨hwindow, remaining_of_fill hfill⟩

/-- What remains are the bytes still to be seen, those behind a stop too. -/
theorem remaining_eq (s : BufferedSource) :
    s.remaining = (s.sights.filterMap Sight.byte?).length := by
  have hleft : ∀ source : Source, source.left = source.data.length := fun source => by
    induction source with
    | nil => rfl
    | cons event source ih =>
      cases event with
      | data bytes => rw [Source.left, Source.data, List.length_append, ih]
      | fail _ | endOfInput | crash _ => exact ih
  rw [sights, List.filterMap_append, Sight.bytes_ofBytes, Source.data_sights, List.length_append,
    ← hleft]
  rfl

end BufferedSource

namespace Lines

/-! ## Lines that are too long -/

/-- Whatever stands behind it, a line that is given up is too long, and no more than that line was
looked at. -/
theorem Whole.overlong {limit limit' : Nat} {taken : Bytes}
    (h : Whole limit taken (.error (.lineTooLong limit'))) (left : Bytes) :
    limit' = limit ∧ taken <+: first (taken ++ left) ++ [newline]
      ∧ Overlong limit (first (taken ++ left)) := by
  obtain ⟨hanswer, hfront, -⟩ := h.decides left
  obtain ⟨hlimit, hlong⟩ := lineResult_tooLong hanswer.symm
  exact ⟨hlimit, hfront, hlong⟩

/-- Only at the end of input is what is left of a line too long. -/
theorem overlong_of_stop {limit limit' : Nat} {line : Bytes} {how : Outcome IoError Unit}
    (h : ((how.mapError (FrameError.io .readLine)).bind fun _ => lastResult limit line)
      = .error (.lineTooLong limit')) : limit' = limit ∧ Overlong limit line := by
  cases how with
  | error e | crash message => cases h
  | ok _ =>
    change lastResult limit line = _ at h
    unfold lastResult at h
    split at h
    · cases h
    · exact lineResult_tooLong h

namespace Reader

/-! ## Every point of a scan -/

/-- `scan` with a record of the line as it is staged: where the scan begins, and behind
every fill. -/
def record (limit : Nat) (line : Staged) (started : Bool) (s : BufferedSource) :
    List Staged × FrameResult × BufferedSource :=
  match _h : s.fill with
  | (.error e, rest) => ([line], .error (.io .readLine e), rest)
  | (.crash message, rest) => ([line], .crash message, rest)
  | (.ok [], rest) => ([line], if started then yieldLine limit line else .ok none, rest)
  | (.ok (b :: bs), rest) =>
    match (b :: bs).dropWhile (· != newline) with
    | _ :: behind =>
      let ended := line.push ((b :: bs).takeWhile (· != newline))
      ([line, ended], yieldLine limit ended, { rest with buffer := behind })
    | [] =>
      let grown := line.push (b :: bs)
      if limit + 1 < grown.size then
        ([line, grown], .error (.lineTooLong limit), { rest with buffer := [] })
      else
        let (staged, last) := record limit grown true { rest with buffer := [] }
        (line :: staged, last)
termination_by s.remaining
decreasing_by exact BufferedSource.remaining_taken_lt _h

/-- The record changes nothing of the scan. -/
theorem record_scan (limit : Nat) (line : Staged) (started : Bool) (s : BufferedSource) :
    (record limit line started s).2 = scan limit line started s := by
  symm
  fun_induction record limit line started s with
  | case1 line started s e rest hfill | case2 line started s message rest hfill
  | case3 line started s rest hfill =>
    rw [scan]
    split <;> rename_i hfill' <;> cases hfill.symm.trans hfill'
    rfl
  | case4 line started s b bs rest hfill c behind hdrop =>
    rw [scan]
    split <;> rename_i hfill' <;> cases hfill.symm.trans hfill'
    rw [hdrop]
  | case5 line started s b bs rest hfill hdrop grown hlimit =>
    rw [scan]
    split <;> rename_i hfill' <;> cases hfill.symm.trans hfill'
    rw [hdrop]
    exact if_pos hlimit
  | case6 line started s b bs rest hfill hdrop grown hlimit staged last hlater ih =>
    rw [scan]
    split <;> rename_i hfill' <;> cases hfill.symm.trans hfill'
    rw [hdrop]
    refine (if_neg hlimit).trans (ih.trans ?_)
    rw [hlater]

/-! ## What the record holds -/

/-- `grown` is `line` with no more than a window of bytes behind it. -/
def GrowsInto (line grown : Staged) : Prop :=
  ∃ bytes : Bytes, bytes.length ≤ sourceWindow ∧ grown = line.push bytes

/-- A line that is returned is `last`, and one that is given up is so because `last` is too long. -/
def ReadOff (limit : Nat) (last : Staged) (answer : FrameResult) : Prop :=
  (∀ frame, answer = .ok (some frame) → frame = last.stripped)
    ∧ ∀ limit', answer = .error (.lineTooLong limit') → limit < last.stripped.length

/-- A line that is whole is judged by what was staged. -/
theorem readOff_yieldLine (limit : Nat) (line : Staged) :
    ReadOff limit line (yieldLine limit line) := by
  unfold yieldLine
  split
  · rename_i hlong
    exact ⟨nofun, fun _ _ => hlong⟩
  · refine ⟨fun frame h => ?_, nofun⟩
    cases h
    rfl

/-- A line that has outgrown the limit is judged so. -/
theorem readOff_grown {limit : Nat} {line : Staged} (h : limit + 1 < line.size) :
    ReadOff limit line (.error (.lineTooLong limit)) := by
  refine ⟨nofun, fun _ _ => ?_⟩
  rw [line.size_eq_length] at h
  have hlong := overlong_of_length h []
  rwa [List.append_nil, Overlong, ← Staged.stripped_eq] at hlong

/-- What is staged between two points of a scan that begins with `line`. -/
structure Staging (limit : Nat) (line : Staged) (lines : List Staged) (answer : FrameResult) :
    Prop where
  begins : lines.head? = some line
  grows : lines.IsChain GrowsInto
  answered : ∃ last ∈ lines.getLast?, ReadOff limit last answer

namespace Staging

variable {limit : Nat} {line grown : Staged} {lines : List Staged} {answer : FrameResult}

/-- One line was staged, and the answer is read off it. -/
theorem single (h : ReadOff limit line answer) : Staging limit line [line] answer :=
  ⟨rfl, .singleton _, line, rfl, h⟩

/-- Before it there was a line that grew into it. -/
theorem cons (h : Staging limit grown lines answer) (hgrows : GrowsInto line grown) :
    Staging limit line (line :: lines) answer := by
  obtain ⟨hbegins, hchain, last, hlast, hanswer⟩ := h
  obtain ⟨later, rfl⟩ := List.head?_eq_some_iff.mp hbegins
  exact ⟨rfl, .cons_cons hgrows hchain, last, hlast, hanswer⟩

end Staging

/-- **The record is what a scan stages**, from the line it begins with to the one it answers with.
Recursion of `record`. -/
theorem record_staging {limit : Nat} {line : Staged} {s : BufferedSource} (started : Bool)
    (hs : s.Windowed) :
    Staging limit line (record limit line started s).1 (record limit line started s).2.1 := by
  fun_induction record limit line started s with
  | case1 | case2 => exact .single ⟨nofun, nofun⟩
  | case3 line started s rest hfill =>
    refine .single ?_
    cases started with
    | true => exact readOff_yieldLine limit line
    | false => exact ⟨nofun, nofun⟩
  | case4 line started s b bs rest hfill c behind hdrop ended =>
    have hfront : (b :: bs).takeWhile (· != newline) <+: b :: bs := List.takeWhile_prefix _
    exact (Staging.single (readOff_yieldLine limit ended)).cons
      ⟨_, hfront.length_le.trans (hs.fill_cons hfill).1, rfl⟩
  | case5 line started s b bs rest hfill hdrop grown hlimit =>
    exact (Staging.single (readOff_grown hlimit)).cons ⟨_, (hs.fill_cons hfill).1, rfl⟩
  | case6 line started s b bs rest hfill hdrop grown hlimit staged last hlater ih =>
    have hstaging := ih (Nat.zero_le _)
    rw [hlater] at hstaging
    exact hstaging.cons ⟨_, (hs.fill_cons hfill).1, rfl⟩

/-! ## Bounds -/

/-- **A scan stays within the limit and one window**, if it begins with a line that is at most one
byte past the limit. Recursion of `record`: a fill brings a window, and the scan goes on only with
a line that is no longer than the one it began with might have been. -/
theorem record_within {limit : Nat} {line : Staged} {s : BufferedSource} (started : Bool)
    (hline : line.size ≤ limit + 1) (hs : s.Windowed) :
    (∀ staged ∈ (record limit line started s).1, staged.size ≤ limit + 1 + sourceWindow)
      ∧ (record limit line started s).2.2.Windowed
      ∧ line.size + s.remaining
        ≤ (record limit line started s).2.2.remaining + (limit + 1 + sourceWindow) := by
  have hfirst : line.size ≤ limit + 1 + sourceWindow := Nat.le_add_right_of_le hline
  fun_induction record limit line started s with
  | case1 line started s e rest hfill | case2 line started s message rest hfill
  | case3 line started s rest hfill =>
    obtain ⟨hrest, hremaining⟩ := hs.fill hfill
    refine ⟨List.forall_mem_singleton.mpr hfirst, hrest, ?_⟩
    show line.size + s.remaining ≤ rest.remaining + _
    -- nothing has been staged beyond what the call started with
    omega
  | case4 line started s b bs rest hfill c behind hdrop ended =>
    obtain ⟨hwindow, hremaining⟩ := hs.fill_cons hfill
    have hlength := congrArg List.length (List.takeWhile_append_dropWhile (p := (· != newline))
      (l := b :: bs))
    rw [hdrop, List.length_append, List.length_cons] at hlength
    have hended : ended.size = line.size + ((b :: bs).takeWhile (· != newline)).length := rfl
    refine ⟨List.forall_mem_cons.mpr ⟨hfirst, List.forall_mem_singleton.mpr (by omega)⟩, ?_, ?_⟩
    · show behind.length ≤ sourceWindow
      omega
    · show line.size + s.remaining ≤ behind.length + rest.source.left + _
      omega
  | case5 line started s b bs rest hfill hdrop grown hlimit =>
    obtain ⟨hwindow, hremaining⟩ := hs.fill_cons hfill
    have hgrown : grown.size = line.size + (b :: bs).length := rfl
    refine ⟨List.forall_mem_cons.mpr ⟨hfirst, List.forall_mem_singleton.mpr (by omega)⟩,
      Nat.zero_le _, ?_⟩
    show line.size + s.remaining ≤ 0 + rest.source.left + _
    omega
  | case6 line started s b bs rest hfill hdrop grown hlimit staged last hlater ih =>
    obtain ⟨-, hremaining⟩ := hs.fill_cons hfill
    have hgrown : grown.size = line.size + (b :: bs).length := rfl
    obtain ⟨hstaged, hlast, htaken⟩ := ih (Nat.le_of_not_lt hlimit) (Nat.zero_le _) (by omega)
    rw [hlater] at hstaged hlast htaken
    refine ⟨List.forall_mem_cons.mpr ⟨hfirst, hstaged⟩, hlast, ?_⟩
    change grown.size + (0 + rest.source.left) ≤ last.2.remaining + _ at htaken
    show line.size + s.remaining ≤ last.2.remaining + _
    omega

/-! ## Lines that are given up -/

/-- A scan that gives a line up has taken some of it, and the line is too long. -/
theorem scan_tooLong {limit limit' : Nat} {s rest : BufferedSource}
    (h : scan limit .empty false s = (.error (.lineTooLong limit'), rest)) :
    limit' = limit ∧ ∃ bytes how behind taken left, Shows s bytes how behind ∧ bytes = taken ++ left
      ∧ taken.length + rest.remaining = s.remaining
      ∧ taken <+: first bytes ++ [newline] ∧ Overlong limit (first bytes) := by
  -- the line was given up while it grew, or measured where the input stopped
  rcases scan_sights limit .empty false s (by simp) (by simp) with
    ⟨taken, answer, rest', hscan, hwhole, hsights⟩ | ⟨taken, how, behind, hscan, hopen, hpasses⟩
  · obtain ⟨rfl, rfl⟩ := Prod.mk.inj (hscan.symm.trans h)
    obtain ⟨bytes, how, behind, hshows⟩ := s.exists_shows
    obtain ⟨left, hbytes, -⟩ := hshows.of_taken hsights
    obtain ⟨hlimit, hfront, hlong⟩ := hwhole.overlong left
    refine ⟨hlimit, bytes, how, behind, taken, left, hshows, hbytes, ?_, hbytes ▸ hfront,
      hbytes ▸ hlong⟩
    rw [s.remaining_eq, hsights, List.filterMap_append, Sight.bytes_ofBytes, List.length_append,
      ← rest'.remaining_eq]
  · obtain ⟨hanswer, rfl⟩ := Prod.mk.inj (hscan.symm.trans h)
    have hfirst : first taken = taken := first_of_not_mem hopen
    obtain ⟨hlimit, hlong⟩ := overlong_of_stop hanswer
    refine ⟨hlimit, taken, how, behind, taken, [], hpasses, (List.append_nil _).symm, ?_, ?_, ?_⟩
    · have hseen := congrArg List.length (hpasses.filterMap_append (f := Sight.byte?) rfl)
      rw [s.remaining_eq, ← hseen, List.filterMap_append, Sight.bytes_ofBytes]
      simp [BufferedSource.remaining_eq, Sight.byte?]
    · rw [hfirst]
      exact List.prefix_append _ _
    · rw [hfirst]
      exact hlong

/-! ## Readers -/

/-- The line at every point of the next call. -/
def staged (r : Reader) : List Staged :=
  (record r.config.maxLineLength .empty false r.input).1

/-- A reader behind `n` lines, whatever became of each. -/
def afterLines : Nat → Reader → Reader
  | 0, r => r
  | n + 1, r => afterLines n r.nextLine.2

/-- Further lines are read from where the others have left the reader. -/
theorem afterLines_add (n m : Nat) (r : Reader) :
    afterLines (n + m) r = afterLines m (afterLines n r) := by
  induction n generalizing r with
  | zero => rw [Nat.zero_add, afterLines]
  | succ n ih => rw [Nat.succ_add, afterLines, afterLines, ih]

/-- A read is some lines. Recursion of `read`. -/
theorem exists_read_eq_afterLines (r : Reader) : ∃ n, r.read.2 = afterLines n r := by
  fun_induction read r with
  | case1 r line rest hline hskip ih =>
    obtain ⟨n, hread⟩ := ih
    refine ⟨n + 1, ?_⟩
    rw [hread, afterLines, hline]
  | case2 r line rest hline hskip | case3 r rest hline | case4 r e rest hline
  | case5 r message rest hline =>
    refine ⟨1, ?_⟩
    rw [afterLines, afterLines, hline]

/-- Reads are rows of lines, since a read skips whole lines. -/
theorem exists_after_eq_afterLines (n : Nat) (r : Reader) :
    ∃ m, Cursor.after n r = afterLines m r := by
  induction n generalizing r with
  | zero => exact ⟨0, rfl⟩
  | succ n ih =>
    obtain ⟨k, hread⟩ := exists_read_eq_afterLines r
    obtain ⟨m, hafter⟩ := ih r.read.2
    refine ⟨k + m, ?_⟩
    rw [afterLines_add, ← hread]
    exact hafter

/-- The lines that are staged for an answer grow out of the empty one. -/
theorem staging_nextLine {r : Reader} (h : r.input.Windowed) :
    Staging r.config.maxLineLength .empty r.staged r.nextLine.1 := by
  have hstaging : Staging _ _ r.staged _ := record_staging false h
  rwa [record_scan] at hstaging

/-- One call stays within the limit and one window: what it stages, what it leaves in the buffer,
and what it takes. -/
theorem nextLine_within {r : Reader} (h : r.input.Windowed) :
    (∀ line ∈ r.staged, line.size ≤ r.config.maxLineLength + 1 + sourceWindow)
      ∧ r.nextLine.2.input.Windowed
      ∧ r.input.remaining
        ≤ r.nextLine.2.input.remaining + (r.config.maxLineLength + 1 + sourceWindow) := by
  have hempty : Staged.empty.size = 0 := rfl
  obtain ⟨hsizes, hrest, htaken⟩ := record_within false (hempty.trans_le (Nat.zero_le _)) h
  rw [record_scan] at hrest htaken
  rw [hempty, Nat.zero_add] at htaken
  exact ⟨hsizes, hrest, htaken⟩

/-- Between lines the buffer is never larger than a window. Induction on the lines. -/
theorem windowed_afterLines {r : Reader} (h : r.input.Windowed) (n : Nat) :
    (afterLines n r).input.Windowed ∧ (afterLines n r).config = r.config := by
  induction n generalizing r with
  | zero => exact ⟨h, rfl⟩
  | succ n ih => exact ih (nextLine_within h).2.1

/-- The next call of `r` costs no more than `limit` allows, however long the line is. -/
structure ScansWithin (limit : Nat) (r : Reader) : Prop where
  limit_eq : r.config.maxLineLength = limit
  /-- That the line is recorded makes no difference. -/
  recorded : (record limit .empty false r.input).2 = (r.nextLine.1, r.nextLine.2.input)
  /-- It is staged fill by fill, and the last point of it is what is answered with. -/
  staging : Staging limit .empty r.staged r.nextLine.1
  /-- The line is at most a window longer than a line that is gone on with. -/
  size_le : ∀ line ∈ r.staged, line.size ≤ limit + 1 + sourceWindow
  /-- A sum that saturates decides alike, on lines that a machine can hold. -/
  saturated : ∀ line ∈ r.staged, line.size ≤ maxWord →
    (min (limit + 1) maxWord < line.size ↔ limit + 1 < line.size)
  /-- A call that gives the line up has taken a front of it, which is no longer than that, and the
  line is too long. The line is what is shown up to the first newline, or up to the next stop. -/
  tooLong {limit' : Nat} {rest : Reader} (h : r.nextLine = (.error (.lineTooLong limit'), rest)) :
    limit' = limit ∧ ∃ bytes how behind taken left, Shows r.input bytes how behind
      ∧ bytes = taken ++ left ∧ taken.length + rest.input.remaining = r.input.remaining
      ∧ taken <+: first bytes ++ [newline] ∧ taken.length ≤ limit + 1 + sourceWindow
      ∧ limit < (strip (first bytes)).length

/-- What is staged for a line stays within the limit, one byte, and one fill of the buffer. -/
theorem scansWithin {limit : Nat} {r : Reader} (hlimit : r.config.maxLineLength = limit)
    (hinput : r.input.Windowed) : ScansWithin limit r := by
  subst hlimit
  obtain ⟨hsizes, -, htaken⟩ := nextLine_within hinput
  refine ⟨rfl, record_scan _ _ _ _, staging_nextLine hinput, hsizes, fun line _ hword => ?_,
    fun {limit' rest} h => ?_⟩
  · omega
  · have hanswer := congrArg Prod.fst h
    have hscan : scan r.config.maxLineLength .empty false r.input
        = (.error (.lineTooLong limit'), rest.input) :=
      Prod.ext hanswer (congrArg (fun reply => reply.2.input) h)
    obtain ⟨hlimit', bytes, how, behind, taken, left, hshows, hbytes, hremaining, hfront, hlong⟩ :=
      scan_tooLong hscan
    refine ⟨hlimit', bytes, how, behind, taken, left, hshows, hbytes, hremaining, hfront, ?_, hlong⟩
    rw [h] at htaken
    change r.input.remaining ≤ rest.input.remaining + _ at htaken
    omega

/-- **Scanning a line is bounded by the limit, not by the input**, for every source and whatever was
read of it before. Reads are made of such calls. -/
theorem scanning_is_bounded (source : Source) (config : Config) :
    (∀ n, ScansWithin config.maxLineLength (afterLines n (ofSource source config)))
      ∧ ∀ n, ∃ m,
        Cursor.after n (ofSource source config) = afterLines m (ofSource source config) := by
  refine ⟨fun n => ?_, fun n => exists_after_eq_afterLines n _⟩
  obtain ⟨hinput, hconfig⟩ := windowed_afterLines (r := ofSource source config)
    (BufferedSource.windowed_ofSource source) n
  exact scansWithin (by rw [hconfig]; rfl) hinput

/-- A line that is too long before its source fails, with no end of it in sight. -/
def lateSource : Source :=
  [.data [97, 98], .fail (.plain .interrupted "signal"), .data [99, 100, 101, 102],
    .fail (.plain .timedOut "late")]

theorem scanning_is_bounded_lateSource :
    (∀ line ∈ (ofSource lateSource ⟨2, false⟩).staged, line.size ≤ 2 + 1 + 8192)
      ∧ (ofSource lateSource ⟨2, false⟩).staged.map Staged.size = [0, 2, 6]
      ∧ (ofSource lateSource ⟨2, false⟩).nextLine.1 = .error (.lineTooLong 2)
      ∧ ∃ bytes how behind, Shows (ofSource lateSource ⟨2, false⟩).input bytes how behind
        ∧ 2 < (strip (first bytes)).length := by
  have hscans := (scanning_is_bounded lateSource ⟨2, false⟩).1 0
  have hanswer : (ofSource lateSource ⟨2, false⟩).nextLine.1 = .error (.lineTooLong 2) := by
    decide +kernel
  obtain ⟨-, bytes, how, behind, -, -, hshows, -, -, -, -, hlong⟩ :=
    hscans.tooLong (Prod.ext hanswer rfl)
  exact ⟨hscans.size_le, by decide +kernel, hanswer, bytes, how, behind, hshows, hlong⟩

end Reader

end Lines

end MessageFraming
