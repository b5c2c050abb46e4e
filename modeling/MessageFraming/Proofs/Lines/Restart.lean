import MessageFraming.Proofs.Cursor.Restart
import MessageFraming.Proofs.Lines.Answers

/-!
# Readers of lines start afresh behind a failure

A reader may be stopped between two lines or in the middle of one. A line that is staged by then
counts as the last one if the source ends, and is dropped with all its bytes if it fails.

* `Lines.Reader.follows`: one line follows the framing of lines (`Lines.Reader.reads`), and this is
  what that makes of a reader, with the empty lines that it passes over.
* `Lines.Reader.answers_of_lines`: what comes of whole lines with a broken one behind them.
-/

namespace MessageFraming

namespace Lines

namespace Reader

/-! ## Reading -/

/-- A line that is not passed over is the answer. -/
theorem takes_of_nextLine {r rest : Reader} {answer : FrameResult}
    (hline : r.nextLine = (answer, rest)) (hanswer : ¬ (framing r.config).Skips answer) :
    ∃ seen, (framing r.config).Takes seen answer ∧ Passes r.input.sights seen rest.input.sights
      ∧ rest.config = r.config
      ∧ ∀ how behind, seen.getLast? = some (.stop how behind) → rest.input = .ofSource behind := by
  obtain ⟨hreads, hconfig⟩ := r.reads
  rw [hline] at hreads hconfig
  obtain ⟨seen, htakes, hpasses, hfresh⟩ := hreads.takesOne
  exact ⟨seen, .one htakes hanswer, hpasses, hconfig, hfresh⟩

/-- A read takes lines up to one that it does not pass over. Recursion of `read`. -/
theorem read_takes (r : Reader) :
    ∃ seen, (framing r.config).Takes seen r.read.1
      ∧ Passes r.input.sights seen r.read.2.input.sights ∧ r.read.2.config = r.config
      ∧ ∀ how behind, seen.getLast? = some (.stop how behind) →
          r.read.2.input = .ofSource behind := by
  fun_induction read r with
  -- => an empty line is passed over, and the call goes on with the next
  | case1 r line rest hline hskip ih =>
    obtain ⟨hreads, hconfig⟩ := r.reads
    rw [hline] at hreads hconfig
    obtain ⟨seen, htakes, hpasses, -⟩ := hreads.takesOne
    obtain ⟨later, hlater, hpasses', hconfig', hfresh⟩ := ih
    obtain ⟨hempty, hskips⟩ := Bool.and_eq_true_iff.mp hskip
    rw [List.isEmpty_iff.mp hempty] at htakes
    rw [hconfig] at hlater hconfig'
    refine ⟨seen ++ later, .skip htakes ⟨hskips, rfl⟩ hlater, hpasses.trans hpasses', hconfig',
      fun how behind hlast => hfresh how behind ?_⟩
    rwa [List.getLast?_append_of_ne_nil _ hlater.ne_nil] at hlast
  | case2 r line rest hline hskip =>
    refine takes_of_nextLine hline ?_
    rintro ⟨hskips, hempty⟩
    cases hempty
    exact hskip (Bool.and_eq_true_iff.mpr ⟨rfl, hskips⟩)
  | case3 r rest hline =>
    refine takes_of_nextLine hline ?_
    rintro ⟨-, hempty⟩
    cases hempty
  | case4 r e rest hline | case5 r message rest hline =>
    refine takes_of_nextLine hline ?_
    rintro ⟨-, hempty⟩
    cases hempty

/-- The reader follows the grammar of lines, failures of the source included. -/
theorem follows (config : Config) : Cursor.Follows (framing config)
    (fun source => ofSource source config) (fun s r => r.input = s ∧ r.config = config) where
  start _ := ⟨rfl, rfl⟩
  takes := by
    rintro _ r ⟨rfl, rfl⟩
    obtain ⟨seen, htakes, hpasses, hconfig, hfresh⟩ := r.read_takes
    exact ⟨seen, _, htakes, hpasses, ⟨rfl, hconfig⟩, hfresh⟩
  alike := by
    rintro _ ⟨input, config⟩ ⟨_, _⟩ ⟨rfl, rfl⟩ ⟨rfl, rfl⟩ n
    rfl

end Reader

/-! ## Whole lines, and a broken one -/

/-- What ends a row of bytes that holds no `\n`. -/
def EndsLine : Sight → Prop
  | .byte b => b = newline
  | .stop _ _ => True

/-- A line feed ends a line. -/
theorem endsLine_newline : EndsLine (.byte newline) := rfl

/-- So does a stop, whatever its kind. -/
theorem endsLine_stop (how : Outcome IoError Unit) (behind : Source) :
    EndsLine (.stop how behind) :=
  trivial

/-- Rows that are the same end their first line in the same place. -/
theorem eq_of_endsLine {x y : Bytes} {a b : Sight} {u v : List Sight} (hx : newline ∉ x)
    (hy : newline ∉ y) (ha : EndsLine a) (hb : EndsLine b)
    (h : Sight.ofBytes x ++ a :: u = Sight.ofBytes y ++ b :: v) : x = y ∧ a = b ∧ u = v := by
  induction x generalizing y with
  | nil =>
    cases y with
    | nil => exact ⟨rfl, List.cons_eq_cons.mp h⟩
    | cons c y =>
      -- one line would end where the other has a byte
      obtain ⟨rfl, -⟩ := List.cons_eq_cons.mp h
      exact absurd (ha ▸ List.mem_cons_self) hy
  | cons d x ih =>
    cases y with
    | nil =>
      obtain ⟨rfl, -⟩ := List.cons_eq_cons.mp h
      exact absurd (hb ▸ List.mem_cons_self) hx
    | cons c y =>
      obtain ⟨hd, hlater⟩ := List.cons_eq_cons.mp h
      cases hd
      obtain ⟨rfl, hends⟩ := ih (List.not_mem_of_not_mem_cons hx) (List.not_mem_of_not_mem_cons hy)
        hlater
      exact ⟨rfl, hends⟩

/-- Bytes without a `\n` do not reach past the end of the first line. -/
theorem length_le_of_endsLine {x y : Bytes} {b : Sight} {u v : List Sight} (hx : newline ∉ x)
    (hb : EndsLine b) (h : Sight.ofBytes x ++ u = Sight.ofBytes y ++ b :: v) :
    x.length ≤ y.length := by
  induction x generalizing y with
  | nil => exact Nat.zero_le _
  | cons d x ih =>
    cases y with
    | nil =>
      obtain ⟨rfl, -⟩ := List.cons_eq_cons.mp h
      exact absurd (hb ▸ List.mem_cons_self) hx
    | cons c y =>
      obtain ⟨-, hlater⟩ := List.cons_eq_cons.mp h
      exact Nat.succ_le_succ (ih (List.not_mem_of_not_mem_cons hx) hlater)

/-- The answer to a line that ends there. -/
def answerAt (limit : Nat) (line : Bytes) : Sight → FrameResult
  | .byte _ => lineResult limit line
  | .stop how _ => (how.mapError (.io .readLine)).bind fun _ => lastResult limit line

/-- Only what ends a line that is short enough decides it. -/
theorem takesOne_of_endsLine {config : Config} {seen after later : List Sight}
    {answer : FrameResult} {line : Bytes} {b : Sight}
    (h : (framing config).TakesOne seen answer) (hline : newline ∉ line)
    (hshort : ¬ Overlong config.maxLineLength line) (hb : EndsLine b)
    (hseen : seen ++ after = Sight.ofBytes line ++ b :: later) :
    seen = Sight.ofBytes line ++ [b] ∧ after = later
      ∧ answer = answerAt config.maxLineLength line b := by
  cases h with
  | whole hwhole =>
    cases hwhole with
    | line hline' =>
      rw [Sight.ofBytes_append, List.append_assoc] at hseen
      obtain ⟨rfl, rfl, rfl⟩ := eq_of_endsLine hline' hline endsLine_newline hb hseen
      exact ⟨Sight.ofBytes_append _ _, rfl, rfl⟩
    | grown hline' hlong =>
      -- it would be too long
      have hle := length_le_of_endsLine hline' hb hseen
      have hstrip := length_le_length_strip line
      unfold Overlong at hshort
      omega
  | part how behind hpart =>
    obtain ⟨hline', rfl, rfl⟩ := hpart
    rw [List.append_assoc] at hseen
    obtain ⟨rfl, rfl, rfl⟩ := eq_of_endsLine hline' hline (endsLine_stop how behind) hb hseen
    exact ⟨rfl, rfl, rfl⟩

/-- Where no line is too long, every line gives its frame. -/
theorem yielded_of_short {limit : Nat} {lines : List Bytes}
    (h : ∀ line ∈ lines, ¬ Overlong limit line) (skipEmpty : Bool) :
    yielded limit skipEmpty lines
      = (lines.map strip).filter fun frame => !(frame.isEmpty && skipEmpty) := by
  have hall : (lines.takeWhile fun line => !decide (Overlong limit line)) = lines :=
    List.takeWhile_eq_self_iff.mpr fun line hmem => by simpa using h line hmem
  rw [yielded, hall]

/-- The frames of the lines that have their `\n` in these bytes. -/
def terminated (config : Config) (bytes : Bytes) : List Bytes :=
  ((split (Bytes.cutAfterLast newline bytes).1).map strip).filter fun frame =>
    !(frame.isEmpty && config.skipEmpty)

/-- Bytes are their terminated lines and what stands behind the last `\n`. -/
theorem split_eq_terminated (bytes : Bytes) :
    bytes = (split (Bytes.cutAfterLast newline bytes).1).flatMap (· ++ [newline])
        ++ (Bytes.cutAfterLast newline bytes).2
      ∧ split bytes = split (Bytes.cutAfterLast newline bytes).1
        ++ split (Bytes.cutAfterLast newline bytes).2 := by
  have haligned : Aligned (Bytes.cutAfterLast newline bytes).1 :=
    or_iff_not_imp_left.mpr Bytes.cutAfterLast_getLast?
  constructor
  · rw [flatMap_split haligned, Bytes.cutAfterLast_append]
  · rw [← split_append haligned, Bytes.cutAfterLast_append]

/-- Bytes without a line feed are one line, the last one. -/
theorem not_overlong_of_unterminated {limit : Nat} {bytes : Bytes} (hopen : newline ∉ bytes)
    (h : ∀ line ∈ split bytes, ¬ Overlong limit line) : ¬ Overlong limit bytes := by
  by_cases hnil : bytes = []
  · subst hnil
    exact Nat.not_lt_zero limit
  · rw [split_unterminated hopen hnil] at h
    exact h bytes List.mem_cons_self

namespace Reader

/-- The next line goes up to what ends it, and the reader stands right behind that. -/
theorem nextLine_of_endsLine {r : Reader} {line : Bytes} {b : Sight} {later : List Sight}
    (hline : newline ∉ line) (hshort : ¬ Overlong r.config.maxLineLength line) (hb : EndsLine b)
    (hsights : r.input.sights = Sight.ofBytes line ++ b :: later) :
    ∃ input k, r.nextLine = (answerAt r.config.maxLineLength line b, ⟨input, r.config⟩)
      ∧ input.sights = later ++ List.replicate k Sight.final
      ∧ ∀ how behind, b = .stop how behind → input = .ofSource behind := by
  obtain ⟨hreads, hconfig⟩ := r.reads
  obtain ⟨seen, htakes, ⟨k, hpasses, -⟩, hfresh⟩ := hreads.takesOne
  rw [hsights, List.append_assoc, List.cons_append] at hpasses
  obtain ⟨rfl, hafter, hanswer⟩ := takesOne_of_endsLine htakes hline hshort hb hpasses
  refine ⟨r.nextLine.2.input, k, ?_, hafter, fun how behind hstop => hfresh how behind ?_⟩
  · rw [← hanswer, ← hconfig]
  · rw [List.getLast?_concat, hstop]

/-- **Lines in front of a failure are read, and what is left of a broken one is not.** Induction on
the lines. -/
theorem answers_of_lines {r : Reader} {lines : List Bytes} {broken : Bytes} {e : IoError}
    {behind : Source} {more : List Sight}
    (hlines : ∀ line ∈ lines, newline ∉ line ∧ ¬ Overlong r.config.maxLineLength line)
    (hbroken : newline ∉ broken) (hshort : ¬ Overlong r.config.maxLineLength broken)
    (hsights : r.input.sights = Sight.ofBytes (lines.flatMap (· ++ [newline]) ++ broken)
      ++ .stop (.error e) behind :: more) (n : Nat) :
    Cursor.answers ((yielded r.config.maxLineLength r.config.skipEmpty lines).length + 1 + n) r
      = (yielded r.config.maxLineLength r.config.skipEmpty lines).map
          (fun frame => .ok (some frame))
        ++ .error (.io .readLine e) :: Cursor.answers n (ofSource behind r.config) := by
  induction lines generalizing r more with
  | nil =>
    obtain ⟨input, k, hline, -, hfresh⟩ := nextLine_of_endsLine hbroken hshort
      (endsLine_stop _ _) hsights
    rw [hfresh _ _ rfl] at hline
    have hread : r.read = (.error (.io .readLine e), ofSource behind r.config) :=
      read_of_no_line hline nofun
    rw [yielded_nil, List.length_nil, Nat.zero_add, Nat.add_comm, Cursor.answers_succ hread]
    rfl
  | cons line lines ih =>
    obtain ⟨⟨hline, hlineShort⟩, hlater⟩ := List.forall_mem_cons.mp hlines
    have hfirst : r.input.sights = Sight.ofBytes line ++ .byte newline ::
        (Sight.ofBytes (lines.flatMap (· ++ [newline]) ++ broken)
          ++ .stop (.error e) behind :: more) := by
      rw [hsights]
      simp
    obtain ⟨input, k, hnext, hinput, -⟩ :=
      nextLine_of_endsLine hline hlineShort endsLine_newline hfirst
    rw [List.append_assoc, List.cons_append] at hinput
    have hanswers := ih (r := ⟨input, r.config⟩) hlater hshort hinput
    rw [answerAt, lineResult, if_neg hlineShort] at hnext
    have hread := read_of_line hnext
    rw [yielded_short hlineShort]
    cases hskip : (strip line).isEmpty && r.config.skipEmpty with
    | true =>
      -- this call goes on to the next line
      rw [if_pos hskip] at hread
      have hsame : Cursor.read r = Cursor.read (⟨input, r.config⟩ : Reader) := hread
      rw [if_pos rfl, Cursor.answers_congr hsame]
      exact hanswers
    | false =>
      rw [if_neg (by simp [hskip])] at hread
      have hcount : ∀ frames : List Bytes,
          (strip line :: frames).length + 1 + n = frames.length + 1 + n + 1 := by
        intro frames
        rw [List.length_cons]
        omega
      rw [if_neg Bool.false_ne_true, hcount, Cursor.answers_succ hread]
      exact congrArg (List.cons _) hanswers

/-- **Data without an end in it, and then a failure**: the terminated lines come, then the failure,
and then what a fresh reader gives for the events behind. -/
theorem answers_of_broken {config : Config} {before behind : Source} {e : IoError} {bytes : Bytes}
    (he : e.isInterrupted = false) (hbytes : before.Delivers bytes)
    (hend : Source.Event.endOfInput ∉ before)
    (hshort : ∀ line ∈ split bytes, ¬ Overlong config.maxLineLength line) (n : Nat) :
    Cursor.answers ((terminated config bytes).length + 1 + n)
        (ofSource (before ++ .fail e :: behind) config)
      = (terminated config bytes).map (fun frame => .ok (some frame))
        ++ .error (.io .readLine e) :: Cursor.answers n (ofSource behind config) := by
  obtain ⟨hcut, hsplit⟩ := split_eq_terminated bytes
  rw [hsplit] at hshort
  obtain ⟨hlines, hbroken⟩ := List.forall_mem_append.mp hshort
  -- the reader sees the lines, then the open one, then the failure
  have hsights : (ofSource (before ++ .fail e :: behind) config).input.sights = _ :=
    Source.sights_append_fail before behind he
  rw [hbytes.sightsBefore_eq hend, hcut] at hsights
  have hopen := Bytes.delimiter_not_mem_cutAfterLast newline bytes
  have hframes : yielded config.maxLineLength config.skipEmpty
      (split (Bytes.cutAfterLast newline bytes).1) = terminated config bytes :=
    yielded_of_short hlines config.skipEmpty
  rw [← hframes]
  exact answers_of_lines (fun line hmem => ⟨(of_mem_split hmem).2, hlines line hmem⟩) hopen
    (not_overlong_of_unterminated hopen hbroken) hsights n

end Reader

end Lines

end MessageFraming
