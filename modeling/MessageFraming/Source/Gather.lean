import MessageFraming.Source

/-!
# Gathering bytes

`gather n` pulls until `n` bytes are together, the supply ends, or a pull fails. It is one loop for
three readers: the window of a chunk, the payload of a length-prefixed frame, and a read of an
exact length. Each of them decides on its own what a short result means.
-/

namespace MessageFraming

variable {σ : Type} [ByteSupply σ]

/-- What a gathering ended with. The bytes are those received, also where a pull failed. -/
structure Gathered (σ : Type) where
  outcome : Outcome IoError Unit
  bytes : Bytes
  supply : σ

/-- The loop of `gather`: `n` bytes are wanted still, and those received stand newest first. -/
def gatherOnto (newestFirst : Bytes) (n : Nat) (s : σ) : Gathered σ :=
  if n = 0 then ⟨.ok (), newestFirst.reverse, s⟩
  else
    match ByteSupply.pull n s with
    | (.ok [], rest) => ⟨.ok (), newestFirst.reverse, rest⟩
    | (.ok (b :: bs), rest) =>
      gatherOnto ((b :: bs).reverse ++ newestFirst) (n - (bs.length + 1)) rest
    | (.error e, rest) => ⟨.error e, newestFirst.reverse, rest⟩
    | (.crash message, rest) => ⟨.crash message, newestFirst.reverse, rest⟩
termination_by n

/-- Pulls up to `n` bytes; fewer only at the end of input or at a failure. -/
def gather (n : Nat) (s : σ) : Gathered σ := gatherOnto [] n s

/-- What was gathered and what remains make up what there was. Induction along the pulls. -/
theorem gatherOnto_remaining (newestFirst : Bytes) (n : Nat) (s : σ) :
    (gatherOnto newestFirst n s).bytes.length
        + ByteSupply.remaining (gatherOnto newestFirst n s).supply
      = newestFirst.length + ByteSupply.remaining s := by
  fun_induction gatherOnto newestFirst n s with
  | case1 => simp
  | case2 newestFirst n s hn rest h =>
    have := ByteSupply.pull_remaining n s
    simp only [h, Outcome.delivered, List.length_nil] at this
    simp only [List.length_reverse]
    omega
  -- a piece moves from what remains to what was gathered
  | case3 newestFirst n s hn b bs rest h ih =>
    have := ByteSupply.pull_remaining n s
    simp only [h, Outcome.delivered, List.length_cons] at this
    rw [ih]
    simp only [List.length_append, List.length_reverse, List.length_cons]
    omega
  | case4 newestFirst n s hn e rest h =>
    have := ByteSupply.pull_remaining n s
    simp only [h, Outcome.delivered] at this
    simp only [List.length_reverse]
    omega
  | case5 newestFirst n s hn message rest h =>
    have := ByteSupply.pull_remaining n s
    simp only [h, Outcome.delivered] at this
    simp only [List.length_reverse]
    omega

/-- Gathering neither loses nor invents a byte. -/
theorem gather_remaining (n : Nat) (s : σ) :
    (gather n s).bytes.length + ByteSupply.remaining (gather n s).supply
      = ByteSupply.remaining s := by
  simpa [gather] using gatherOnto_remaining [] n s

/-- Reads exactly `n` bytes, or fewer if the source ends first. A failure loses what was read. -/
def Source.readExact (n : Nat) (s : Source) : Outcome IoError Bytes × Source :=
  let g := gather n s
  (g.outcome.map fun _ => g.bytes, g.supply)

/-- One byte, or none at the end of input. -/
def pullByte (s : σ) : Outcome IoError (Option UInt8) × σ :=
  let (outcome, rest) := ByteSupply.pull 1 s
  (outcome.map List.head?, rest)

/-- The pull of a byte does not add to what remains. -/
theorem pullByte_remaining_le (s : σ) :
    ByteSupply.remaining (pullByte s).2 ≤ ByteSupply.remaining s := by
  have := ByteSupply.pull_remaining 1 s
  simp only [pullByte]
  omega

/-- A byte that arrives has left the supply. -/
theorem pullByte_remaining_lt {s rest : σ} {b : UInt8} (h : pullByte s = (.ok (some b), rest)) :
    ByteSupply.remaining rest < ByteSupply.remaining s := by
  have hcost := ByteSupply.pull_remaining 1 s
  rcases hp : ByteSupply.pull 1 s with ⟨outcome, rest'⟩
  simp only [pullByte, hp, Prod.mk.injEq] at h
  obtain ⟨ho, rfl⟩ := h
  cases outcome with
  | ok bytes =>
    cases bytes with
    | nil => simp at ho
    | cons b' bs =>
      simp only [hp, Outcome.delivered, List.length_cons] at hcost
      omega
  | error e => simp at ho
  | crash message => simp at ho

end MessageFraming
