import TrackedValues.Error
import TrackedValues.Memory.Heap

/-!
The machine on which values live: its heap and the events reported so far. Operations take the
machine they start on and answer the machine they leave. The target of an operation is part of its
outcome also after a failure, so that a statement about failures can say what became of it.
-/
namespace TrackedValues

structure Machine where
  heap : Heap
  /-- Reported events, the newest first. -/
  events : List Event := []

namespace Machine

def start (base : Base) : Machine := { heap := { base := base } }

def emit (m : Machine) (e : Event) : Machine := { m with events := e :: m.events }

def request (m : Machine) (a : Allocator) (r : Request) : Option Nat × Machine :=
  let answer := m.heap.request a r
  (answer.1, { m with heap := answer.2 })

def release (m : Machine) (a : Allocator) (size : Nat) : Machine :=
  { m with heap := m.heap.release a size }

def replace (m : Machine) (a : Allocator) (old new : Nat) : Option Nat × Machine :=
  let answer := m.heap.replace a old new
  (answer.1, { m with heap := answer.2 })

def eventsAfter (m : Machine) (n : Nat) : List Event :=
  (m.events.take (m.events.length - n)).reverse

end Machine

structure Outcome (ε ρ α : Type) where
  result : Except ε α
  target : ρ
  machine : Machine

namespace Outcome
variable {ε ρ σ α β : Type}

def andThen (o : Outcome ε ρ α) (next : α → ρ → Machine → Outcome ε ρ β) : Outcome ε ρ β :=
  match o.result with
  | .ok a => next a o.target o.machine
  | .error e => ⟨.error e, o.target, o.machine⟩

def within (o : Outcome ε ρ α) (owner : ρ → σ) : Outcome ε σ α :=
  ⟨o.result, owner o.target, o.machine⟩

end Outcome
end TrackedValues
