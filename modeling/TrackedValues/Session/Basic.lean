import TrackedValues.Value.Editing

/-!
A session: a machine, named registers that own values, and named raw blocks. Text, lists and blocks
are made on the numbered allocators of the session.
-/
namespace TrackedValues

/--
The allocators of a session by number, the limits its trackers start with, by identifier, and the
order in which the trackers are shown. Any number of trackers may be shared between allocators.
-/
structure Arrangement where
  handles : List Allocator
  limits : List (Option Nat)
  shown : List TrackerId
  inner : Option TrackerId
  deriving DecidableEq, Repr

/-- Names the outermost tracker of a numbered allocator, or the shared inner tracker. -/
inductive TrackerName
  | numbered (n : Nat)
  | inner
  deriving DecidableEq, Repr

namespace Arrangement

def plain : Arrangement := ⟨[], [], [], none⟩

def separate (limits : List (Option Nat)) : Arrangement :=
  let trackers := List.range limits.length
  ⟨trackers.map .tracked, limits, trackers, none⟩

def shared (limits : List (Option Nat)) (inner : Option Nat) : Arrangement :=
  let outer := List.range limits.length
  ⟨outer.map fun n => ⟨[n + 1, 0], by simp⟩, inner :: limits, outer.map (· + 1) ++ [0], some 0⟩

def allocator (a : Arrangement) (n : Nat) : Allocator := a.handles.getD n .base

def handle (a : Arrangement) : TrackerName → Allocator
  | .numbered n => a.allocator n
  | .inner => (a.inner.map .tracked).getD .base

def tracker? (a : Arrangement) (name : TrackerName) : Option TrackerId := (a.handle name).chain.head?

def heap (a : Arrangement) (base : Base) : Heap :=
  { base := base, trackers := a.limits.map fun limit => { limit := limit } }

end Arrangement

structure Block where
  allocator : Allocator
  layout : Layout
  deriving DecidableEq, Repr

structure Session where
  arrangement : Arrangement
  machine : Machine
  registers : List (String × Value)
  blocks : List (String × Block)

inductive Failure
  | value (cause : Error)
  | storage (cause : AllocationError)
  | formatting
  | blockRefused
  | invalidLayout
  | unboundRegister (name : String)
  | unboundBlock (name : String)
  deriving DecidableEq, Repr

def Failure.message : Failure → String
  | value cause => cause.message
  | storage cause => cause.message
  | formatting => "an error occurred when formatting an argument"
  | blockRefused => "memory allocation failed"
  | invalidLayout => "invalid parameters to Layout::from_size_align"
  | unboundRegister name => name
  | unboundBlock name => name

namespace Session

def start (arrangement : Arrangement) (base : Base) : Session :=
  ⟨arrangement, { heap := arrangement.heap base }, [], []⟩

def ordinary (arrangement : Arrangement) : Session := start arrangement .system

def allocator (s : Session) (n : Nat) : Allocator := s.arrangement.allocator n

def on (s : Session) (m : Machine) : Session := { s with machine := m }

def register? (s : Session) (name : String) : Option Value := s.registers.lookup name

def unbind (s : Session) (name : String) : Session :=
  { s with registers := s.registers.filter fun r => r.1 != name }

def take (s : Session) (name : String) : Except Failure Value × Session :=
  match s.register? name with
  | some v => (.ok v, s.unbind name)
  | none => (.error (.unboundRegister name), s)

/-- Binds a register, whose earlier value has been moved or released. -/
def bind (s : Session) (name : String) (v : Value) : Session :=
  let others := s.unbind name
  { others with registers := (name, v) :: others.registers }

def drop (s : Session) (name : String) : Session :=
  match s.register? name with
  | some v => (s.unbind name).on (v.release s.machine)
  | none => s

def rebind (s : Session) (name : String) (v : Value) : Session := (s.drop name).bind name v

def block? (s : Session) (name : String) : Option Block := s.blocks.lookup name

def unbindBlock (s : Session) (name : String) : Session :=
  { s with blocks := s.blocks.filter fun b => b.1 != name }

def bindBlock (s : Session) (name : String) (b : Block) : Session :=
  let others := s.unbindBlock name
  { others with blocks := (name, b) :: others.blocks }

def dropBlock (s : Session) (name : String) : Session :=
  match s.block? name with
  | some b => (s.unbindBlock name).on (s.machine.release b.allocator b.layout.size)
  | none => s

def stats (s : Session) : List Stats :=
  s.arrangement.shown.map fun t => (s.machine.heap.tracker t).stats

def finish (s : Session) : Session :=
  let m := s.registers.foldl (fun m r => r.2.release m) s.machine
  let m := s.blocks.foldl (fun m b => m.release b.2.allocator b.2.layout.size) m
  { s with machine := m, registers := [], blocks := [] }

end Session
end TrackedValues
