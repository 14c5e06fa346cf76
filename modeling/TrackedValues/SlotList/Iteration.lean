import TrackedValues.SlotList.Links

/-!
Reading a list from both ends, and taking it apart from both ends. A cursor holds the list, the
next slot at either end and the number of elements between them; when the ends have met it yields
nothing more. A drain owns the list; what it has not yielded is still in the list.
-/
namespace TrackedValues

structure Cursor (α : Type) where
  list : SlotList α
  front : Option Nat
  back : Option Nat
  remaining : Nat
  deriving DecidableEq, Repr

def SlotList.cursor {α : Type} (l : SlotList α) : Cursor α := ⟨l, l.head, l.tail, l.len⟩

namespace Cursor
variable {α : Type}

def next (c : Cursor α) : Except Error (Option α × Cursor α) :=
  if c.remaining = 0 then .ok (none, c)
  else
    match c.front with
    | none => .ok (none, c)
    | some i =>
      match c.list.node i with
      | .ok (_, next, value) =>
        .ok (some value, { c with front := next, remaining := c.remaining - 1 })
      | .error e => .error e

def nextBack (c : Cursor α) : Except Error (Option α × Cursor α) :=
  if c.remaining = 0 then .ok (none, c)
  else
    match c.back with
    | none => .ok (none, c)
    | some i =>
      match c.list.node i with
      | .ok (prev, _, value) =>
        .ok (some value, { c with back := prev, remaining := c.remaining - 1 })
      | .error e => .error e

/-- At most `n` elements, taken with one of the two steps until it yields nothing. -/
def take (step : Cursor α → Except Error (Option α × Cursor α)) :
    Nat → Cursor α → Except Error (List α)
  | 0, _ => .ok []
  | n + 1, c =>
    match step c with
    | .error e => .error e
    | .ok (none, _) => .ok []
    | .ok (some value, c') =>
      match take step n c' with
      | .ok rest => .ok (value :: rest)
      | .error e => .error e

def toList (c : Cursor α) : Except Error (List α) := take next c.remaining c

def toListBack (c : Cursor α) : Except Error (List α) := take nextBack c.remaining c

end Cursor

structure Drain (α : Type) where
  list : SlotList α
  deriving DecidableEq, Repr

namespace Drain
variable {α : Type}

def remaining (d : Drain α) : Nat := d.list.len

def next (d : Drain α) : Except Error (Option α) × Drain α :=
  let taken := d.list.popFront
  (taken.1, ⟨taken.2⟩)

def nextBack (d : Drain α) : Except Error (Option α) × Drain α :=
  let taken := d.list.popBack
  (taken.1, ⟨taken.2⟩)

end Drain
end TrackedValues
