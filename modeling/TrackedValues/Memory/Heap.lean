import TrackedValues.Memory.Tracker

/-!
The heap: a base allocator, which may refuse any request, and the trackers stacked over it. An
allocator handle is a chain of trackers, outermost first. A request goes inwards through the
chain and is counted on the way back, so a refusal at any depth leaves every count as it was.
-/
namespace TrackedValues

/--
The allocator under all trackers. Requests are numbered from zero; whether request `n` is
accepted and which bytes its block holds before it is written are functions of `n`.
-/
structure Base where
  accepts : Nat → Request → Bool
  scratch : Nat → Nat → UInt8

def Base.system : Base where
  accepts _ r := r.size < addressLimit
  scratch _ _ := 0

abbrev TrackerId := Nat

/-- A handle: the trackers that a request passes, outermost first, each one once. -/
structure Allocator where
  chain : List TrackerId
  nodup : chain.Nodup
  deriving DecidableEq, Repr

namespace Allocator

def base : Allocator := ⟨[], List.nodup_nil⟩

instance : Inhabited Allocator := ⟨base⟩

def tracked (t : TrackerId) : Allocator := ⟨[t], by simp⟩

/-- Bytes of one list slot: two links and a value, and a pointer to each tracker of the handle. -/
def slotSize (a : Allocator) : Nat := 112 + 8 * a.chain.length

end Allocator

/-- Tracker states by identifier; one that was never changed is in its initial state. -/
structure Heap where
  base : Base
  asked : Nat := 0
  trackers : List Tracker := []

namespace Heap

def setPadded {α : Type} (fill : α) (x : α) : List α → Nat → List α
  | [], 0 => [x]
  | [], n + 1 => fill :: setPadded fill x [] n
  | _ :: rest, 0 => x :: rest
  | y :: rest, n + 1 => y :: setPadded fill x rest n

theorem getD_setPadded {α : Type} (fill x : α) (l : List α) (n m : Nat) :
    (setPadded fill x l n).getD m fill = if m = n then x else l.getD m fill := by
  induction n generalizing l m with
  | zero => cases l <;> cases m <;> simp [setPadded]
  | succ n ih => cases l <;> cases m <;> simp_all [setPadded]

def tracker (h : Heap) (t : TrackerId) : Tracker := h.trackers.getD t {}

def update (h : Heap) (t : TrackerId) (f : Tracker → Tracker) : Heap :=
  { h with trackers := setPadded {} (f (h.tracker t)) h.trackers t }

theorem tracker_update (h : Heap) (t u : TrackerId) (f : Tracker → Tracker) :
    (h.update t f).tracker u = if u = t then f (h.tracker t) else h.tracker u :=
  getD_setPadded _ _ _ _ _

def setLimit (h : Heap) (t : TrackerId) (limit : Option Nat) : Heap :=
  h.update t fun s => { s with limit := limit }

/-- A request through a chain; a granted one answers the number of its block. -/
def requestThrough (h : Heap) (r : Request) : List TrackerId → Option Nat × Heap
  | [] => (if h.base.accepts h.asked r then some h.asked else none, { h with asked := h.asked + 1 })
  | t :: inner =>
    if (h.tracker t).Admits r.extra then
      match h.requestThrough r inner with
      | (some block, h') => (some block, h'.update t (·.grant r))
      | (none, h') => (none, h')
    else
      (none, h)

def request (h : Heap) (a : Allocator) (r : Request) : Option Nat × Heap :=
  h.requestThrough r a.chain

def releaseThrough (h : Heap) (size : Nat) : List TrackerId → Heap
  | [] => h
  | t :: inner => (h.releaseThrough size inner).update t (·.release size)

def release (h : Heap) (a : Allocator) (size : Nat) : Heap := h.releaseThrough size a.chain

/--
Moves a block to fresh storage of another size: the new block is obtained while the old one is
still live. Shrinking and zeroed growth work this way.
-/
def replace (h : Heap) (a : Allocator) (old new : Nat) : Option Nat × Heap :=
  match h.request a (.fresh new) with
  | (some block, h') => (some block, h'.release a old)
  | (none, h') => (none, h')

def statsOf (h : Heap) (a : Allocator) : Stats :=
  match a.chain with
  | [] => {}
  | t :: _ => (h.tracker t).stats

def describeChain (h : Heap) : List TrackerId → String
  | [] => "Global"
  | t :: inner =>
    "TrackingAlloc \x7b inner: " ++ h.describeChain inner ++ ", state: " ++
      (h.tracker t).debug ++ " \x7d"

def describe (h : Heap) (a : Allocator) : String := h.describeChain a.chain

end Heap
end TrackedValues
