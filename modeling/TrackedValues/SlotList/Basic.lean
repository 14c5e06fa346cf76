import TrackedValues.Machine

/-!
Doubly linked sequences in a table of slots. An occupied slot holds an element and the positions
of its neighbours; a vacant slot holds the position of the next vacant one. Order is carried by
the links alone, and a vacated slot is the next to be used again. An operation that meets a slot
it cannot use answers `Error.brokenLink`.
-/
namespace TrackedValues

inductive Slot (α : Type)
  | occupied (prev next : Option Nat) (value : α)
  | vacant (nextFree : Option Nat)
  deriving DecidableEq, Repr

structure SlotList (α : Type) where
  allocator : Allocator
  slots : Array (Slot α)
  capacity : Nat
  head : Option Nat
  tail : Option Nat
  free : Option Nat
  len : Nat
  deriving DecidableEq, Repr

def Slot.map {α β : Type} (f : α → β) : Slot α → Slot β
  | .occupied prev next value => .occupied prev next (f value)
  | .vacant nextFree => .vacant nextFree

def Slot.value? {α : Type} : Slot α → Option α
  | .occupied _ _ value => some value
  | .vacant _ => none

namespace SlotList
variable {α β : Type}

def empty (a : Allocator) : SlotList α := ⟨a, #[], 0, none, none, none, 0⟩

def isEmpty (l : SlotList α) : Bool := l.len == 0

def map (f : α → β) (l : SlotList α) : SlotList β :=
  ⟨l.allocator, l.slots.map (Slot.map f), l.capacity, l.head, l.tail, l.free, l.len⟩

/-- The elements of the occupied slots, in the order of the table. -/
def stored (l : SlotList α) : List α := l.slots.toList.filterMap Slot.value?

def node (l : SlotList α) (i : Nat) : Except Error (Option Nat × Option Nat × α) :=
  match l.slots[i]? with
  | some (.occupied prev next value) => .ok (prev, next, value)
  | _ => .error (.brokenLink i)

/-- Follows the next links for a number of steps; a chain that ends early leads nowhere. -/
def walkNext (l : SlotList α) : Nat → Nat → Except Error (Option Nat)
  | i, 0 => .ok (some i)
  | i, steps + 1 =>
    match l.node i with
    | .ok (_, some next, _) => l.walkNext next steps
    | .ok (_, none, _) => .ok none
    | .error e => .error e

def walkPrev (l : SlotList α) : Nat → Nat → Except Error (Option Nat)
  | i, 0 => .ok (some i)
  | i, steps + 1 =>
    match l.node i with
    | .ok (some prev, _, _) => l.walkPrev prev steps
    | .ok (none, _, _) => .ok none
    | .error e => .error e

/-- The slot of the element at a position, reached from the nearer end. -/
def slotAt (l : SlotList α) (position : Nat) : Except Error (Option Nat) :=
  if l.len ≤ position then .ok none
  else if position < l.len / 2 then
    match l.head with
    | some i => l.walkNext i position
    | none => .ok none
  else
    match l.tail with
    | some i => l.walkPrev i (l.len - 1 - position)
    | none => .ok none

def valueAt (l : SlotList α) (i : Nat) : Except Error α :=
  match l.node i with
  | .ok (_, _, value) => .ok value
  | .error e => .error e

def valueOf (l : SlotList α) : Option Nat → Except Error (Option α)
  | none => .ok none
  | some i =>
    match l.valueAt i with
    | .ok value => .ok (some value)
    | .error e => .error e

def get (l : SlotList α) (position : Nat) : Except Error (Option α) :=
  match l.slotAt position with
  | .ok place => l.valueOf place
  | .error e => .error e

def front (l : SlotList α) : Except Error (Option α) := l.valueOf l.head

def back (l : SlotList α) : Except Error (Option α) := l.valueOf l.tail

def chainFrom (l : SlotList α) : Nat → Option Nat → List Nat
  | 0, _ => []
  | _, none => []
  | n + 1, some i =>
    match l.slots[i]? with
    | some (.occupied _ next _) => i :: l.chainFrom n next
    | _ => []

def chain (l : SlotList α) : List Nat := l.chainFrom l.len l.head

/-- The sequence that the list stands for. -/
def elements (l : SlotList α) : List α := l.chain.filterMap fun i => l.slots[i]?.bind Slot.value?

theorem chainFrom_map (f : α → β) (l : SlotList α) (n : Nat) (place : Option Nat) :
    (l.map f).chainFrom n place = l.chainFrom n place := by
  induction n generalizing place with
  | zero => cases place <;> rfl
  | succ n ih =>
    cases place with
    | none => rfl
    | some i =>
      simp only [chainFrom, map, Array.getElem?_map]
      cases l.slots[i]? with
      | none => rfl
      | some s =>
        cases s with
        | occupied prev next value => exact congrArg (i :: ·) (ih next)
        | vacant nextFree => rfl

theorem elements_map (f : α → β) (l : SlotList α) : (l.map f).elements = l.elements.map f := by
  have sameChain : (l.map f).chain = l.chain := chainFrom_map f l l.len l.head
  rw [elements, elements, sameChain, List.map_filterMap]
  congr 1
  funext i
  simp only [map, Array.getElem?_map]
  cases l.slots[i]? with
  | none => rfl
  | some s => cases s <;> rfl

theorem stored_map (f : α → β) (l : SlotList α) : (l.map f).stored = l.stored.map f := by
  rw [stored, stored, map, Array.toList_map, List.filterMap_map, List.map_filterMap]
  congr 1
  funext s
  cases s <;> rfl

end SlotList
end TrackedValues
