/-!
# Parallelism profiles

How many workers decode chunks, and how many chunks each of the two queues between the threads
holds. A pipeline needs at least one of each, so zeros are raised to one.
-/

namespace MessageFraming

structure Profile where
  workers : Nat
  inflight : Nat
deriving Repr, DecidableEq

namespace Profile

/-- The profile with zeros raised to one. -/
def ofCounts (workers inflight : Nat) : Profile := ⟨max workers 1, max inflight 1⟩

def raised (p : Profile) : Profile := ofCounts p.workers p.inflight

def singleThreaded : Profile := ofCounts 1 1

/-- One worker for each processor but one, which is left to the splitter, and two chunks in flight
for each worker. -/
def forProcessors (processors : Nat) : Profile :=
  let workers := max (processors - 1) 1
  ofCounts workers (workers * 2)

theorem raised_workers_pos (p : Profile) : 0 < p.raised.workers := by
  simp only [raised, ofCounts]
  omega

theorem raised_inflight_pos (p : Profile) : 0 < p.raised.inflight := by
  simp only [raised, ofCounts]
  omega

end Profile

end MessageFraming
