import TrackedValues.Size

/-!
Requests to an allocator and the counters that a tracker keeps of those that pass through it.
Counting is exact; the peak is taken after every recorded event. A tracker refuses a request that
would push its live bytes above its limit.
-/
namespace TrackedValues

/-- A request for storage: a fresh block, or a longer one in place of a live block. -/
inductive Request
  | fresh (size : Nat)
  | grow (old new : Nat)
  deriving DecidableEq, Repr

namespace Request

def size : Request → Nat
  | fresh size => size
  | grow _ new => new

/-- The bytes by which a granted request raises the live bytes. -/
def extra : Request → Nat
  | fresh size => size
  | grow old new => new - old

end Request

structure Stats where
  allocations : Nat := 0
  deallocations : Nat := 0
  reallocations : Nat := 0
  liveBytes : Nat := 0
  peakBytes : Nat := 0
  deriving DecidableEq, Repr

namespace Stats

def raisePeak (s : Stats) : Stats := { s with peakBytes := max s.peakBytes s.liveBytes }

def granted (s : Stats) : Request → Stats
  | .fresh size =>
    raisePeak { s with allocations := s.allocations + 1, liveBytes := s.liveBytes + size }
  | .grow old new =>
    raisePeak { s with reallocations := s.reallocations + 1, liveBytes := s.liveBytes + (new - old) }

def released (s : Stats) (size : Nat) : Stats :=
  raisePeak { s with deallocations := s.deallocations + 1, liveBytes := s.liveBytes - size }

def liveAllocations (s : Stats) : Nat := s.allocations - s.deallocations

def IsBalanced (s : Stats) : Prop := s.liveAllocations = 0 ∧ s.liveBytes = 0

instance (s : Stats) : Decidable s.IsBalanced := inferInstanceAs (Decidable (_ ∧ _))

def debug (s : Stats) : String :=
  "AllocStats \x7b allocations: " ++ toString s.allocations ++
    ", deallocations: " ++ toString s.deallocations ++
    ", reallocations: " ++ toString s.reallocations ++
    ", live_bytes: " ++ toString s.liveBytes ++
    ", peak_bytes: " ++ toString s.peakBytes ++ " \x7d"

theorem granted_liveBytes (s : Stats) (r : Request) :
    (s.granted r).liveBytes = s.liveBytes + r.extra := by
  cases r <;> rfl

theorem released_liveBytes (s : Stats) (size : Nat) :
    (s.released size).liveBytes = s.liveBytes - size := rfl

theorem granted_peakBytes (s : Stats) (r : Request) :
    (s.granted r).peakBytes = max s.peakBytes (s.liveBytes + r.extra) := by
  cases r <;> rfl

theorem released_granted_liveBytes (s : Stats) (r : Request) :
    ((s.granted r).released r.extra).liveBytes = s.liveBytes := by
  rw [released_liveBytes, granted_liveBytes]
  omega

end Stats

structure Tracker where
  stats : Stats := {}
  limit : Option Nat := none
  deriving DecidableEq, Repr

namespace Tracker

instance : Inhabited Tracker := ⟨{}⟩

/-- With a limit, the new total fits a word and the limit; without one everything is admitted. -/
def Admits (t : Tracker) (extra : Nat) : Prop :=
  ∀ limit ∈ t.limit, t.stats.liveBytes + extra ≤ wordMax ∧ t.stats.liveBytes + extra ≤ limit

instance (t : Tracker) (extra : Nat) : Decidable (t.Admits extra) :=
  inferInstanceAs (Decidable (∀ limit ∈ t.limit, _ ∧ _))

def grant (t : Tracker) (r : Request) : Tracker := { t with stats := t.stats.granted r }

def release (t : Tracker) (size : Nat) : Tracker := { t with stats := t.stats.released size }

def debug (t : Tracker) : String :=
  "State \x7b stats: Cell \x7b value: " ++ t.stats.debug ++ " \x7d, limit: Cell \x7b value: " ++
    (match t.limit with
      | none => "None"
      | some limit => s!"Some({limit})") ++ " \x7d \x7d"

end Tracker
end TrackedValues
