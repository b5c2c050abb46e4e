import MessageFraming.Source.Gather

/-!
# Gathering, pull by pull

`gather` keeps the bytes that it has received in an accumulator, newest first. Nobody else needs to
know of it: to gather is to pull again and again, each time for what is still missing.

* `Gathers`: this row of pulls, with one constructor for each way in which it goes on or ends.
* `gather_gathers`: `gather` is such a row. What it comes to on supplies of some kind is then an
  induction on the row.
-/

namespace MessageFraming

variable {σ : Type} [ByteSupply σ]

/-- Gathering `n` bytes from `s` receives `got`, ends with `how` and leaves `rest`. -/
inductive Gathers : Nat → σ → Bytes → Outcome IoError Unit → σ → Prop where
  | enough (s : σ) : Gathers 0 s [] (.ok ()) s
  | stopped {n : Nat} {s rest : σ} {how : Outcome IoError Unit} (hn : 0 < n)
      (hpull : ByteSupply.pull n s = (how.map fun _ => [], rest)) : Gathers n s [] how rest
  | piece {n : Nat} {s next rest : σ} {b : UInt8} {bs got : Bytes} {how : Outcome IoError Unit}
      (hn : 0 < n) (hpull : ByteSupply.pull n s = (.ok (b :: bs), next))
      (hlater : Gathers (n - (bs.length + 1)) next got how rest) :
      Gathers n s (b :: bs ++ got) how rest

/-- The loop of `gather_gathers`: what is received stands behind what was there before. -/
theorem gatherOnto_gathers (newestFirst : Bytes) (n : Nat) (s : σ) :
    ∃ got how rest, gatherOnto newestFirst n s = ⟨how, newestFirst.reverse ++ got, rest⟩
      ∧ Gathers n s got how rest := by
  fun_induction gatherOnto newestFirst n s with
  | case1 newestFirst s => exact ⟨[], .ok (), s, by rw [List.append_nil], .enough s⟩
  | case2 newestFirst n s hn rest hpull =>
    exact ⟨[], .ok (), rest, by rw [List.append_nil], .stopped (Nat.pos_of_ne_zero hn) hpull⟩
  -- a piece came, and the loop goes on with fewer to gather
  | case3 newestFirst n s hn b bs next hpull ih =>
    obtain ⟨got, how, rest, hloop, hgathers⟩ := ih
    refine ⟨b :: bs ++ got, how, rest, ?_, .piece (Nat.pos_of_ne_zero hn) hpull hgathers⟩
    rw [hloop, List.reverse_append, List.reverse_reverse, List.append_assoc]
  | case4 newestFirst n s hn e rest hpull =>
    exact ⟨[], .error e, rest, by rw [List.append_nil], .stopped (Nat.pos_of_ne_zero hn) hpull⟩
  | case5 newestFirst n s hn message rest hpull =>
    exact ⟨[], .crash message, rest, by rw [List.append_nil],
      .stopped (Nat.pos_of_ne_zero hn) hpull⟩

/-- Every gathering is one. -/
theorem gather_gathers (n : Nat) (s : σ) :
    ∃ got how rest, gather n s = ⟨how, got, rest⟩ ∧ Gathers n s got how rest :=
  gatherOnto_gathers [] n s

end MessageFraming
