import MessageFraming.Proofs.Source.Stops

/-!
# What a supply delivers

A bare source and a buffered one are pulled through one interface. A reader over either of them
depends on nothing but the bytes that come, and this is said here once for both.

* `DeliveringSupply`: supplies of which the bytes to come can be told, with the law that a pull
  takes some of them off the front, and takes none only where none are left.
* `RowDelivers`: that a supply delivers bytes can be told from what is seen of it, since there are
  only ends of input behind them (`Source.delivers_iff`, `BufferedSource.delivers_iff`). What a pull
  does and what a reader does is known of all rows, so it is known of these (`RowDelivers.of_taken`,
  `RowDelivers.of_stop`).
* `pullByte_delivers`: what a reader of single bytes takes then, and what it leaves.
-/

namespace MessageFraming

/-- Supplies of which it can be told what they will deliver. -/
class DeliveringSupply (σ : Type) [ByteSupply σ] where
  /-- The supply hands out `bytes`, in pieces of any size, and then stays at its end. -/
  Delivers : σ → Bytes → Prop
  pull_delivers : ∀ {n : Nat} {s : σ} {bytes : Bytes}, 0 < n → Delivers s bytes →
    ∃ piece later rest, ByteSupply.pull n s = (.ok piece, rest) ∧ Delivers rest later
      ∧ bytes = piece ++ later ∧ piece.length ≤ n ∧ (piece = [] → bytes = [])

/-! ## Rows -/

/-- The row is one of `bytes`, and of ends of input behind them. -/
def RowDelivers (row : List Sight) (bytes : Bytes) : Prop :=
  ∃ ends, row = Sight.ofBytes bytes ++ ends
    ∧ ∀ sight ∈ ends, ∃ behind, sight = .stop (.ok ()) behind

/-- An end of input is no byte. -/
theorem head?_ne_byte {ends : List Sight}
    (h : ∀ sight ∈ ends, ∃ behind, sight = .stop (.ok ()) behind) (b : UInt8) :
    ends.head? ≠ some (.byte b) := by
  intro hhead
  obtain ⟨behind, hbyte⟩ := h _ (List.mem_of_head? hhead)
  cases hbyte

namespace RowDelivers

variable {row row' after : List Sight} {bytes taken : Bytes}

/-- Bytes that were taken are the first of them. -/
theorem of_taken (h : RowDelivers row bytes) (hrow : row = Sight.ofBytes taken ++ row') :
    ∃ later, bytes = taken ++ later ∧ RowDelivers row' later := by
  obtain ⟨ends, rfl, hends⟩ := h
  obtain ⟨later, rfl, hrest⟩ := Sight.cut_ofBytes (head?_ne_byte hends) hrow
  exact ⟨later, rfl, ends, hrest, hends⟩

/-- A stop is an end of input, and comes behind all of them. -/
theorem of_stop {how : Outcome IoError Unit} {behind : Source} (h : RowDelivers row bytes)
    (hpasses : Passes row (Sight.ofBytes taken ++ [.stop how behind]) after) :
    how = .ok () ∧ bytes = taken ∧ RowDelivers after [] := by
  obtain ⟨ends, rfl, hends⟩ := h
  obtain ⟨n, hn, -⟩ := hpasses
  rw [List.append_assoc, List.append_assoc, List.singleton_append] at hn
  -- with the ends of input that come of nothing, there are still only such
  have hall : ∀ sight ∈ ends ++ List.replicate n Sight.final,
      ∃ behind, sight = .stop (.ok ()) behind :=
    List.forall_mem_append.mpr ⟨hends, fun sight hmem => ⟨[], (List.mem_replicate.mp hmem).2⟩⟩
  obtain ⟨left, rfl, hleft⟩ := Sight.cut_ofBytes (head?_ne_byte hall) hn.symm
  cases left with
  | cons b left => cases hleft
  | nil =>
    have hrow : ends ++ List.replicate n Sight.final = .stop how behind :: after := hleft.symm
    rw [hrow] at hall
    obtain ⟨⟨behind', hstop⟩, hafter⟩ := List.forall_mem_cons.mp hall
    cases hstop
    exact ⟨rfl, List.append_nil taken, after, rfl, hafter⟩

/-- A pull takes some of the bytes, or finds that there are none. -/
theorem pull {σ : Type} [ByteSupply σ] [VisibleSupply σ]
    (hfresh : ∀ behind, VisibleSupply.sights (VisibleSupply.ofSource behind : σ) = behind.sights)
    {n : Nat} {s : σ} (hn : 0 < n) (h : RowDelivers (VisibleSupply.sights s) bytes) :
    ∃ piece later rest, ByteSupply.pull n s = (.ok piece, rest)
      ∧ RowDelivers (VisibleSupply.sights rest) later ∧ bytes = piece ++ later
      ∧ piece.length ≤ n ∧ (piece = [] → bytes = []) := by
  rcases VisibleSupply.pull_sights s hn with ⟨b, bs, rest, hpull, hlt, hsights⟩
    | ⟨how, behind, hpull, hpasses⟩
  · obtain ⟨later, hcut, hlater⟩ := h.of_taken hsights
    exact ⟨b :: bs, later, rest, hpull, hlater, hcut, hlt, fun hnil => nomatch hnil⟩
  · -- where no byte comes, none is left to be delivered
    have hnone : Passes (VisibleSupply.sights s) (Sight.ofBytes [] ++ [.stop how behind])
        behind.sights := hpasses
    obtain ⟨rfl, rfl, hlater⟩ := h.of_stop hnone
    refine ⟨[], [], _, hpull, ?_, rfl, Nat.zero_le n, fun _ => rfl⟩
    rw [hfresh]
    exact hlater

end RowDelivers

/-! ## Bare sources -/

namespace Source

/-- A pull brings no more than it was asked for. -/
theorem pull_length_le {n : Nat} {s rest : Source} {piece : Bytes} (hn : 0 < n)
    (h : s.pull n = (.ok piece, rest)) : piece.length ≤ n := by
  rcases pull_ok hn h with ⟨rfl, -⟩ | ⟨-, hle, -⟩
  · exact Nat.zero_le n
  · exact hle

/-- Data and interruptions show nothing but bytes, and ends of input only more of them. -/
theorem Delivers.row {s : Source} {bytes : Bytes} (h : s.Delivers bytes) :
    RowDelivers s.sights bytes := by
  induction h with
  | nil => exact ⟨[], rfl, fun _ hmem => nomatch hmem⟩
  | @data bytes later rest _ ih =>
    obtain ⟨ends, hrow, hends⟩ := ih
    -- the bytes of a piece stand in front
    refine ⟨ends, ?_, hends⟩
    rw [Sight.ofBytes_append, List.append_assoc, ← hrow]
    rfl
  | @interrupted e bytes rest hint _ ih =>
    rw [sights, sightsBefore, if_pos hint]
    exact ih
  | @ended rest _ ih =>
    obtain ⟨ends, hrow, hends⟩ := ih
    refine ⟨.stop (.ok ()) (rest ++ []) :: ends, ?_, List.forall_mem_cons.mpr ⟨⟨_, rfl⟩, hends⟩⟩
    exact congrArg (List.cons _) hrow

/-- **A source delivers what its row does.** Induction on the script. -/
theorem delivers_iff {s : Source} {bytes : Bytes} :
    s.Delivers bytes ↔ RowDelivers s.sights bytes := by
  refine ⟨Delivers.row, fun h => ?_⟩
  induction s generalizing bytes with
  | nil =>
    obtain ⟨ends, hrow, -⟩ := h
    obtain ⟨hnil, -⟩ := List.append_eq_nil_iff.mp hrow.symm
    rw [List.map_eq_nil_iff.mp hnil]
    exact .nil
  | cons event rest ih =>
    cases event with
    | data piece =>
      obtain ⟨later, rfl, hlater⟩ := h.of_taken rfl
      exact .data (ih hlater)
    | fail e =>
      cases he : e.isInterrupted with
      | true =>
        rw [sights, sightsBefore, if_pos he] at h
        exact .interrupted he (ih h)
      | false =>
        obtain ⟨hok, -⟩ := h.of_stop (Shows.of_failed he rest)
        cases hok
    | endOfInput =>
      have hshows : Shows (.endOfInput :: rest : Source) [] (.ok ()) rest :=
        passes_stop (.ok ()) rest
      obtain ⟨-, rfl, hlater⟩ := h.of_stop hshows
      exact .ended (ih hlater)
    | crash message =>
      have hshows : Shows (.crash message :: rest : Source) [] (.crash message) rest :=
        passes_stop (.crash message) rest
      obtain ⟨hok, -⟩ := h.of_stop hshows
      cases hok

instance : DeliveringSupply Source where
  Delivers := Delivers
  pull_delivers {_ s bytes} hn h := by
    have hrow : RowDelivers (VisibleSupply.sights s) bytes := h.row
    obtain ⟨piece, later, rest, hpull, hrest, hcut⟩ := hrow.pull (fun _ => rfl) hn
    exact ⟨piece, later, rest, hpull, delivers_iff.mpr hrest, hcut⟩

end Source

/-! ## Buffered sources -/

namespace BufferedSource

/-- What is still to be read: the buffered bytes, and then those that the source delivers. -/
def Delivers (s : BufferedSource) (bytes : Bytes) : Prop :=
  ∃ later, s.source.Delivers later ∧ bytes = s.buffer ++ later

/-- A buffer that is empty at first delivers what its source does. -/
theorem delivers_ofSource {source : Source} {bytes : Bytes} (h : source.Delivers bytes) :
    (ofSource source).Delivers bytes :=
  ⟨bytes, h, rfl⟩

/-- Buffered bytes come first, in the row as in what is delivered. -/
theorem delivers_iff {s : BufferedSource} {bytes : Bytes} :
    s.Delivers bytes ↔ RowDelivers s.sights bytes := by
  constructor
  · rintro ⟨later, hsource, rfl⟩
    obtain ⟨ends, hrow, hends⟩ := hsource.row
    refine ⟨ends, ?_, hends⟩
    rw [sights, hrow, Sight.ofBytes_append, List.append_assoc]
  · intro h
    obtain ⟨later, rfl, hlater⟩ := h.of_taken rfl
    exact ⟨later, Source.delivers_iff.mpr hlater, rfl⟩

instance : DeliveringSupply BufferedSource where
  Delivers := Delivers
  pull_delivers {_ s bytes} hn h := by
    have hrow : RowDelivers (VisibleSupply.sights s) bytes := delivers_iff.mp h
    obtain ⟨piece, later, rest, hpull, hrest, hcut⟩ := hrow.pull (fun _ => rfl) hn
    exact ⟨piece, later, rest, hpull, delivers_iff.mpr hrest, hcut⟩

end BufferedSource

/-! ## Single bytes -/

section

variable {σ : Type} [ByteSupply σ] [DeliveringSupply σ]

open DeliveringSupply

/-- The next byte comes, if there is one. -/
theorem pullByte_delivers {s : σ} {bytes : Bytes} (h : Delivers s bytes) :
    ∃ rest, pullByte s = (.ok bytes.head?, rest) ∧ Delivers rest bytes.tail := by
  obtain ⟨piece, later, rest, hpull, hrest, hcut, hle, hend⟩ := pull_delivers Nat.one_pos h
  refine ⟨rest, ?_⟩
  rw [pullByte, hpull]
  cases piece with
  | nil =>
    rw [hend rfl] at hcut ⊢
    rw [List.nil_append] at hcut
    subst hcut
    exact ⟨rfl, hrest⟩
  | cons b bs =>
    rw [List.length_cons] at hle
    -- only one byte was asked for
    have hbs : bs = [] := List.length_eq_zero_iff.mp (by omega)
    subst hbs
    rw [hcut]
    exact ⟨rfl, hrest⟩

end

end MessageFraming
